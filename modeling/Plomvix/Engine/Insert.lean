import Plomvix.Engine.Planner

/-! INSERT: the rows of a statement are mapped to the schema of the table and handed to its heap one
by one, by a batch or by a stream, in both cases without undoing what a failing statement wrote. -/
namespace Plomvix.Engine
open Lib

def mapLiteralByType (lib : GoLib) (lit : Literal) (col : Column) : Except Err Datum :=
  match lit.typ with
  | .intVal =>
    match parseInt lit.val with
    | none => .error (.wrap "%w: cannot parse int %q" .typeMismatch [lit.val])
    | some val =>
      match col.typ with
      | .int64 => .ok ⟨.int64,.int64 val⟩
      | .uint64 =>
        if val < 0 then .error (.wrap "%w: negative value for uint64 column" .typeMismatch [])
        else .ok ⟨.uint64,.uint64 val.toUInt64⟩
      | .float64 => .ok ⟨.float64,.float64 (lib.floatOfInt val)⟩
      | .string => .ok ⟨.string,.string lit.val⟩
      | .bytes => .ok ⟨.bytes,.bytes lit.val⟩
      | t => .error (.wrap "%w: cannot map integer to column type %d" .typeMismatch [decimal t.code.toNat])
  | .floatVal =>
    match lib.parseFloat lit.val with
    | none => .error (.wrap "%w: cannot parse float %q" .typeMismatch [lit.val])
    | some val =>
      match col.typ with
      | .float64 => .ok ⟨.float64,.float64 val⟩
      | .int64 => .ok ⟨.int64,.int64 (lib.intOfFloat val)⟩
      | .uint64 =>
        if lib.floatLess val 0 then .error (.wrap "%w: negative value for uint64 column" .typeMismatch [])
        else .ok ⟨.uint64,.uint64 (lib.uintOfFloat val)⟩
      | .string => .ok ⟨.string,.string lit.val⟩
      | .bytes => .ok ⟨.bytes,.bytes lit.val⟩
      | t => .error (.wrap "%w: cannot map float to column type %d" .typeMismatch [decimal t.code.toNat])
  | .strVal =>
    match col.typ with
    | .string => .ok ⟨.string,.string lit.val⟩
    | .bytes => .ok ⟨.bytes,.bytes lit.val⟩
    | .float64 =>
      match lib.parseFloat lit.val with
      | none => .error (.wrap "%w: cannot parse string %q as float" .typeMismatch [lit.val])
      | some val => .ok ⟨.float64,.float64 val⟩
    | .int64 =>
      match parseInt lit.val with
      | none => .error (.wrap "%w: cannot parse string %q as int" .typeMismatch [lit.val])
      | some val => .ok ⟨.int64,.int64 val⟩
    | .uint64 =>
      match parseInt lit.val with
      | none => .error (.wrap "%w: cannot parse string %q as uint" .typeMismatch [lit.val])
      | some val =>
        if val < 0 then .error (.wrap "%w: cannot parse string %q as uint" .typeMismatch [lit.val])
        else .ok ⟨.uint64,.uint64 val.toUInt64⟩
    | t => .error (.wrap "%w: cannot map string to column type %d" .typeMismatch [decimal t.code.toNat])
  | .other => .error .unsupportedInsertValue

def mapLiteral (lib : GoLib) (expr : Expr) (col : Column) : Except Err Datum :=
  match expr with
  | .nullVal => .ok ⟨col.typ,.nil⟩
  | .literal lit => mapLiteralByType lib lit col
  | _ => .error .unsupportedInsertValue

def defaultDatums (columns : List Column) : List Datum :=
  columns.map fun col => col.defaultValue.getD ⟨col.typ,.nil⟩

/-- The map from names to indices has the last column of a name. -/
def indexByName (lib : GoLib) (columns : List Column) (colName : Bytes) : Option ℕ :=
  (columns.findIdxs fun col => lib.toLower col.name = colName).getLast?

/-- The loop over the listed columns; `seen` are the names before. -/
def mapListed (lib : GoLib) (columns : List Column) :
    List Bytes → List (Bytes × Expr) → List Datum → Except Err (List Datum)
  | _,[],mapped => .ok mapped
  | seen,(ident,expr)::rest,mapped =>
    let colName := lib.toLower ident
    if colName ∈ seen then .error (.wrap "%w: %q" .duplicateColumn [colName])
    else match indexByName lib columns colName with
      | none => .error (.wrap "%w: %q" .unknownColumn [colName])
      | some idx =>
        match columns[idx]? with
        | none => .error (.wrap "%w: %q" .unknownColumn [colName])
        | some col => do
          let d ← mapLiteral lib expr col
          mapListed lib columns (colName::seen) rest (mapped.set idx d)

def mapAll (lib : GoLib) : List (Expr × Column) → Except Err (List Datum)
  | [] => .ok []
  | (expr,col)::rest => do return (← mapLiteral lib expr col)::(← mapAll lib rest)

def checkNotNull : List (Column × Datum) → Except Err Unit
  | [] => .ok ()
  | (col,d)::rest =>
    if col.notNull ∧ d.value = .nil then
      .error (.wrap "%w: column %q" .notNullViolation [col.name]) else checkNotNull rest

def buildRow (lib : GoLib) (schema : Schema) (insertCols : List Bytes) (rowExprs : List Expr) :
    Except Err Row := do
  let mapped ←
    if insertCols≠[] then
      if insertCols.length≠rowExprs.length then .error .columnCountMismatch
      else mapListed lib schema.columns [] (insertCols.zip rowExprs) (defaultDatums schema.columns)
    else if rowExprs.length≠schema.columns.length then .error .columnCountMismatch
    else mapAll lib (rowExprs.zip schema.columns)
  checkNotNull (schema.columns.zip mapped)
  return ⟨mapped,0⟩

def buildRows (lib : GoLib) (schema : Schema) (insertCols : List Bytes) :
    List (List Expr) → Except Err (List Row)
  | [] => .ok []
  | rowExprs::values => do
    return (← buildRow lib schema insertCols rowExprs)::(← buildRows lib schema insertCols values)

def coerceDatum (lib : GoLib) (src : Datum) (col : Column) : Except Err Datum :=
  if src.value = .nil then .ok ⟨col.typ,.nil⟩
  else if src.typ = col.typ then .ok src
  else match col.typ with
    | .int64 =>
      match src.value with
      | .int64 v => .ok ⟨col.typ,.int64 v⟩
      | .uint64 v => .ok ⟨col.typ,.int64 v.toInt64⟩
      | .float64 v => .ok ⟨col.typ,.int64 (lib.intOfFloat v)⟩
      | _ => .error (.wrap "%w: cannot coerce to int64" .typeMismatch [])
    | .uint64 =>
      match src.value with
      | .int64 v =>
        if v < 0 then .error (.wrap "%w: negative to uint64" .typeMismatch []) else
          .ok ⟨col.typ,.uint64 v.toUInt64⟩
      | .uint64 v => .ok ⟨col.typ,.uint64 v⟩
      | _ => .error (.wrap "%w: cannot coerce to uint64" .typeMismatch [])
    | .float64 =>
      match src.value with
      | .int64 v => .ok ⟨col.typ,.float64 (lib.floatOfInt v)⟩
      | .uint64 v => .ok ⟨col.typ,.float64 (lib.floatOfUint v)⟩
      | .float64 v => .ok ⟨col.typ,.float64 v⟩
      | _ => .error (.wrap "%w: cannot coerce to float64" .typeMismatch [])
    | .string =>
      match src.value with
      | .string v => .ok ⟨col.typ,.string v⟩
      | .bytes v => .ok ⟨col.typ,.string v⟩
      | _ => .error (.wrap "%w: cannot coerce to string" .typeMismatch [])
    | .bytes =>
      match src.value with
      | .string v => .ok ⟨col.typ,.bytes v⟩
      | .bytes v => .ok ⟨col.typ,.bytes v⟩
      | _ => .error (.wrap "%w: cannot coerce to bytes" .typeMismatch [])
    | _ => .error .typeMismatch

def coerceDatums (lib : GoLib) : List (Datum × Column) → Except Err (List Datum)
  | [] => .ok []
  | (src,col)::rest => do
    let d ← coerceDatum lib src col
    if col.notNull ∧ d.value = .nil then .error (.wrap "%w: column %q" .notNullViolation [col.name])
    else return d::(← coerceDatums lib rest)

def coerceRow (lib : GoLib) (target : Schema) (src : Row) : Except Err Row := do
  if src.datums.length≠target.columns.length then .error .columnCountMismatch
  else return ⟨← coerceDatums lib (src.datums.zip target.columns),0⟩

/-- The store of all tables, an ordered map. -/
structure Store where
  entries : SQL.Entries
  sorted : Assoc.Sorted entries

/-- What the engine keeps for a table: its heap, keyed by the first column as CREATE TABLE makes it. -/
structure Adapter where
  table : SQL.Table
  keyed : table.pkIndices = [0]
  lastWriteTxID : UInt64
  heapGeneration : UInt64
  deriving DecidableEq

lemma sorted_insert {schema : SQL.Schema} {lim : SQL.Limits} {tx : UInt64} {vals : List SQL.Val}
    {st : SQL.Entries}
    (h : Assoc.Sorted st) : Assoc.Sorted (SQL.insert schema lim tx vals st).2 := by
  rw [SQL.insert,SQL.setEntry]
  split
  · exact h
  · rw [SQL.storeSet]
    split
    · exact Assoc.sorted_put _ _ h
    · exact h

/-- `Insert` of the heap; `fails` says that a call of the store returns an error. -/
def Adapter.insert (a : Adapter) (lim : SQL.Limits) (tx : UInt64) (fails : Bool) (row : Row) (st : Store) :
    Except Err Unit × Store :=
  if fails then (.error (.heap .store),st)
  else ((SQL.insert a.table.toSchema lim tx row.vals st.entries).1.mapError .heap,
    ⟨(SQL.insert a.table.toSchema lim tx row.vals st.entries).2,sorted_insert st.sorted⟩)

/-- The rows go to the heap one by one, up to the first that does not come or is not taken; `n`
counts them. -/
def Adapter.append (a : Adapter) (lim : SQL.Limits) (tx : UInt64) (fails : ℕ → Bool) :
    ℕ → Stream → Store → Except Err ℕ × Store
  | n,[],st => (.ok n,st)
  | _,.error e::_,st => (.error e,st)
  | n,.ok row::rows,st =>
    match a.insert lim tx (fails n) row st with
    | (.error e,st') => (.error e,st')
    | (.ok _,st') => a.append lim tx fails (n+1) rows st'

/-- A batch and a stream guard and publish the write transaction alike. -/
def Adapter.write (a : Adapter) (lim : SQL.Limits) (tx : UInt64) (fails : ℕ → Bool) (rows : Stream)
    (st : Store) :
    Except Err ℕ × Adapter × Store :=
  if tx ≤ a.lastWriteTxID then (.error .txConflict,a,st)
  else match a.append lim tx fails 0 rows st with
    | (.error e,st') => (.error e,a,st')
    | (.ok n,st') => (.ok n,{ a with lastWriteTxID := tx },st')

def Adapter.insertBatch (a : Adapter) (lim : SQL.Limits) (tx : UInt64) (fails : ℕ → Bool)
    (rows : List Row) :
    Store → Except Err ℕ × Adapter × Store :=
  a.write lim tx fails (rows.map .ok)

/-- `BeginInsertStream`, an `Append` for every row of the source, and `Commit` or `Abort`. -/
def Adapter.insertStream (a : Adapter) (lim : SQL.Limits) (tx : UInt64) (fails : ℕ → Bool)
    (lib : GoLib) (target : Schema)
    (source : Stream) : Store → Except Err ℕ × Adapter × Store :=
  a.write lim tx fails (source.map fun next => next.bind (coerceRow lib target))

end Plomvix.Engine
