import Plomvix.Planner.Agg

/-! The full translator: the clauses of a SELECT are turned into operators one after another. -/
namespace Plomvix.Planner
open Lib Engine

inductive JoinType
  | normal | left | right | other
  deriving DecidableEq

/-- A FROM item; an aliased one without a table name is a derived table. -/
inductive TableExpr
  | aliased (name : Option Bytes) (as : Bytes)
  | join (kind : JoinType) (left right : TableExpr) (on : Option Expr)
  | other

inductive SelectItem
  | aliased (expr : Expr) (as : Bytes)
  | func (name : Bytes) (args : List Expr) (as : Bytes)
  | other

/-- What the binder reads of it: a function call is no expression that it knows. -/
def SelectItem.toSelectExpr : SelectItem → SelectExpr
  | .aliased expr as => .aliased expr as
  | .func _ _ as => .aliased .other as
  | .other => .other

/-- One term of `ORDER BY`. -/
structure Order where
  expr : Expr
  desc : Bool

/-- The `LIMIT` clause. -/
structure Limit where
  rowcount : Option Expr
  offset : Option Expr

/-- The clauses of a `SELECT` that are translated. -/
structure Select where
  fromExprs : List TableExpr
  where? : Option Expr
  groupBy : List Expr
  exprs : List SelectItem
  orderBy : List Order
  limit : Option Limit

/-- The catalog, the heaps and the decoder that a request is planned with. -/
structure Env where
  getTable : Bytes → Except Err TableInfo
  getTableHeap : UInt64 → Except Err TableHeap
  decoder : RowDecoder
  tx : TxContext

def colIndex (name : Bytes) (schema : Schema) : Option ℕ :=
  schema.columns.findIdx? fun col => col.name = name

/-- The alias is not looked at. -/
def translateAliasedTable (env : Env) (name : Option Bytes) : Except Err Operator :=
  match name with
  | none => .error .plannerUnsupportedFeature
  | some name =>
    if name = [] then .error .plannerUnsupportedFeature
    else match env.getTable name with
      | .error e => .error e
      | .ok info =>
        match Schema.decode info.schemaPayload with
        | .error e => .error e
        | .ok engSchema =>
          match env.getTableHeap info.tableID with
          | .error _ => .error .tableHeapNotFound
          | .ok heap => .ok (seqScanNode heap env.decoder engSchema env.tx)

def selectsHashJoin : Option Expr → Bool
  | some (.comparison .equal (.colName lq _) (.colName rq _)) => decide (lq≠[] ∧ rq≠[] ∧ lq≠rq)
  | _ => false

def resolveKeyIndex (lib : GoLib) (ps : PlannerSchema) : Expr → Option ℕ
  | .colName qualifier name => (resolveColumn lib ps qualifier name).toOption
  | _ => none

def buildJoin (lib : PlanLib) (left right : Operator) (cond : Option BoundExpr)
    (rawCond : Option Expr) (isLeftJoin : Bool) : Operator :=
  match rawCond with
  | some (.comparison .equal l r) =>
    if selectsHashJoin rawCond then
      match resolveKeyIndex lib.toGoLib (getPlannerSchema left) l,
        resolveKeyIndex lib.toGoLib (getPlannerSchema right) r with
      | some li,some ri => hashJoinNode lib left right li ri isLeftJoin cond
      | _,_ => nestedLoopJoinNode lib.toGoLib left right cond isLeftJoin
    else nestedLoopJoinNode lib.toGoLib left right cond isLeftJoin
  | _ => nestedLoopJoinNode lib.toGoLib left right cond isLeftJoin

def bindOn (lib : GoLib) (left right : Operator) : Option Expr → Except Err (Option BoundExpr)
  | none => .ok none
  | some on => (bindWherePlanner lib (getPlannerSchema left++getPlannerSchema right) on).map some

section Translate
variable (lib : PlanLib) (env : Env)

def translateTableExpr : TableExpr → Except Err Operator
  | .aliased name _ => translateAliasedTable env name
  | .join kind leftExpr rightExpr on =>
    if kind = .right then .error .plannerUnsupportedFeature
    else match translateTableExpr leftExpr with
      | .error e => .error e
      | .ok left =>
        match translateTableExpr rightExpr with
        | .error e => .error e
        | .ok right =>
          match bindOn lib.toGoLib left right on with
          | .error e => .error e
          | .ok cond => .ok (buildJoin lib left right cond on (decide (kind = .left)))
  | .other => .error .plannerUnsupportedFeature

/-- The rest of the FROM items, each joined to what is left of it. -/
def crossJoin : Operator → List TableExpr → Except Err Operator
  | left,[] => .ok left
  | left,te::rest =>
    match translateTableExpr lib env te with
    | .error e => .error e
    | .ok right => crossJoin (nestedLoopJoinNode lib.toGoLib left right none false) rest

def translateFrom : List TableExpr → Except Err Operator
  | [] => .error .plannerUnsupportedFeature
  | te::rest =>
    match translateTableExpr lib env te with
    | .error e => .error e
    | .ok left => crossJoin lib env left rest

end Translate

def translateWhere (lib : GoLib) (op : Operator) : Option Expr → Except Err Operator
  | none => .ok op
  | some expr =>
    match bindWherePlanner lib (getPlannerSchema op) expr with
    | .error e => .error e
    | .ok pred => .ok (filterNode lib op pred)

def isAggregateName (lib : PlanLib) (name : Bytes) : Bool :=
  ["COUNT","SUM","MIN","MAX"].any fun s => lib.toUpper name = ascii s

def isAggregateItem (lib : PlanLib) : SelectItem → Bool
  | .func name _ _ => isAggregateName lib name
  | _ => false

def hasAggregates (lib : PlanLib) (exprs : List SelectItem) : Bool := exprs.any (isAggregateItem lib)

/-- The columns that GROUP BY and ORDER BY name are looked up by their bytes, without a qualifier. -/
def keyIndex (notFound : String) (schema : Schema) : Expr → Except Err ℕ
  | .colName _ name =>
    match colIndex name schema with
    | none => .error (.format notFound [name])
    | some idx => .ok idx
  | _ => .error .plannerUnsupportedFeature

def aggColRefExpr (schema : Schema) (op : AggOp) : List Expr → Except Err AggRequest
  | [] => .error .panic
  | .colName _ name::_ =>
    match colIndex name schema with
    | none => .error (.format "planner: column %q not found" [name])
    | some idx => .ok ⟨op,some idx⟩
  | _::_ => .error (.wrap "planner: %w: aggregate requires column reference" .plannerUnsupportedFeature [])

def resolveAggregate (lib : PlanLib) (schema : Schema) (name : Bytes) (args : List Expr) :
    Except Err AggRequest :=
  if lib.toUpper name = ascii "COUNT" then if args = [] then .ok ⟨.count,none⟩ else
    aggColRefExpr schema .count args
  else if lib.toUpper name = ascii "SUM" then aggColRefExpr schema .sum args
  else if lib.toUpper name = ascii "MIN" then aggColRefExpr schema .min args
  else if lib.toUpper name = ascii "MAX" then aggColRefExpr schema .max args
  else .error (.wrap "planner: %w: unsupported aggregate %q" .plannerUnsupportedFeature [lib.toUpper name])

/-- Of the select list only the aggregates are read. -/
def groupAggs (lib : PlanLib) (schema : Schema) : List SelectItem → Except Err (List AggRequest)
  | [] => .ok []
  | .other::_ => .error .plannerUnsupportedFeature
  | .aliased _ _::exprs => groupAggs lib schema exprs
  | .func name args _::exprs =>
    if isAggregateName lib name then do
      return (← resolveAggregate lib schema name args)::(← groupAggs lib schema exprs)
    else groupAggs lib schema exprs

def translateGroupBy (lib : PlanLib) (op : Operator) (sel : Select) : Except Err Operator :=
  match sel.groupBy.mapM (keyIndex "planner: GROUP BY column %q not found" op.schema) with
  | .error e => .error e
  | .ok groupKeys =>
    match groupAggs lib op.schema sel.exprs with
    | .error e => .error e
    | .ok aggs => .ok (hashAggNode lib op groupKeys aggs)

def translateProjection (lib : GoLib) (op : Operator) (exprs : List SelectItem) : Except Err Operator :=
  match bindProjections lib (getPlannerSchema op) (exprs.map (·.toSelectExpr)) with
  | .error e => .error e
  | .ok projs => .ok (projectNode lib op projs ⟨projs.map (·.col)⟩)

def translateOrderBy (lib : GoLib) (op : Operator) (orders : List Order) : Except Err Operator :=
  if orders = [] then .ok op
  else match orders.mapM fun o => (keyIndex "planner: ORDER BY column %q not found" op.schema
    o.expr).map fun idx => SortKey.mk idx o.desc with
    | .error e => .error e
    | .ok keys => .ok (sortNode lib op keys)

/-- Anything but a literal is read as zero, and so is a number that does not fit. -/
def limitValue : Option Expr → Int64
  | some (.literal lit) => parseIntOrZero lit.val
  | _ => 0

def translateLimit (op : Operator) : Option Limit → Operator
  | none => op
  | some limit => limitNode op (limitValue limit.rowcount) (limitValue limit.offset)

def Select.grouped (lib : PlanLib) (sel : Select) : Bool :=
  decide (sel.groupBy≠[]) || hasAggregates lib sel.exprs

/-- `none` is a statement that is not a plain SELECT. -/
def translate (lib : PlanLib) (env : Env) (stmt : Option Select) : Except Err Operator :=
  match stmt with
  | none => .error .plannerUnsupportedFeature
  | some sel =>
    match translateFrom lib env sel.fromExprs with
    | .error e => .error e
    | .ok op =>
      match translateWhere lib.toGoLib op sel.where? with
      | .error e => .error e
      | .ok op =>
        match (if sel.grouped lib then translateGroupBy lib op sel else
          translateProjection lib.toGoLib op sel.exprs) with
        | .error e => .error e
        | .ok op =>
          match translateOrderBy lib.toGoLib op sel.orderBy with
          | .error e => .error e
          | .ok op => .ok (translateLimit op sel.limit)

end Plomvix.Planner
