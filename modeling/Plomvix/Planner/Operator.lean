import Plomvix.Lib.Cursor
import Plomvix.Lib.Slices
import Plomvix.Engine.Planner

/-! The operators of a physical plan. Each keeps a state of its own and that of its children, and is
opened, asked for one row after another, and closed. -/
namespace Plomvix.Planner
open Lib Engine Plomvix.Lib.Comp

/-- What the planner takes from the standard library beyond what the engine does. -/
structure PlanLib extends GoLib where
  toUpper : Bytes → Bytes
  /-- `Sprintf` with `%f`. -/
  formatFloat : UInt64 → Bytes
  floatAdd : UInt64 → UInt64 → UInt64

/-- The transactions a plan reads and writes at. -/
structure TxContext where
  readTxID : UInt64
  writeTxID : UInt64
  deriving DecidableEq

/-- What an iterator of a heap returns call by call: a tuple with its row ID, or an error. -/
structure HeapScanIterator where
  tuples : List (Except Err (Bytes × UInt64))
  close : Except Err Unit

/-- A table as a scan sees it. -/
structure TableHeap where
  scan : TxContext → Except Err HeapScanIterator

/-- The row that it returns has no ID yet. -/
abbrev RowDecoder := Bytes → Schema → Except Err (List Datum)

/-- A node of a physical plan. -/
structure Operator where
  State : Type
  /-- The state before `Open`. -/
  init : State
  schema : Schema
  /-- Of the operators only the joins keep one. -/
  plannerSchema : Option PlannerSchema
  openNode : State → Comp (Except Err Unit × State)
  next : State → Comp (Answer Err Row × State)
  close : State → Except Err Unit × State

def getPlannerSchema (op : Operator) : PlannerSchema :=
  op.plannerSchema.getD (plannerSchemaFromEngineSchema op.schema [])

def toEngineSchema (ps : PlannerSchema) : Schema := ⟨ps.map (·.column)⟩

/-- Open the operator and take all its rows. -/
def Operator.drain (op : Operator) : Comp (Except Err (List Row)) := do
  match ← op.openNode op.init with
  | (.error e,_) => return .error e
  | (.ok _,s) => return (← Cursor.collect op.next s).1

/-- It opens, and yields these rows up to the end of file. -/
def Operator.Runs (op : Operator) (rows : List Row) : Prop :=
  ∃ s s', (op.openNode op.init).Returns (.ok (),s) ∧ Cursor.Streams op.next s rows s'

section Scan
variable (heap : TableHeap) (decoder : RowDecoder) (schema : Schema) (tx : TxContext)

def seqScanOpen (s : Option HeapScanIterator) : Comp (Except Err Unit × Option HeapScanIterator) :=
  match heap.scan tx with
  | .error e => return (.error e,s)
  | .ok iter => return (.ok (),some iter)

def seqScanNext (s : Option HeapScanIterator) : Comp (Answer Err Row × Option HeapScanIterator) :=
  match s with
  | none => return (.eof,none)
  | some ⟨[],close⟩ => return (.eof,some ⟨[],close⟩)
  | some ⟨.error e::rest,close⟩ => return (.err e,some ⟨rest,close⟩)
  | some ⟨.ok (encoded,rowID)::rest,close⟩ =>
    match decoder encoded schema with
    | .error e => return (.err e,some ⟨rest,close⟩)
    | .ok datums => return (.row ⟨datums,rowID⟩,some ⟨rest,close⟩)

def seqScanNode : Operator where
  State := Option HeapScanIterator
  init := none
  schema := schema
  plannerSchema := none
  openNode := seqScanOpen heap tx
  next := seqScanNext decoder schema
  close s := match s with
    | none => (.ok (),none)
    | some iter => (iter.close,none)

end Scan

/-- A row passes only if the predicate is the value `true`. -/
def holds (lib : GoLib) (pred : BoundExpr) (row : Row) : Except Err Bool :=
  (pred.eval lib row).map fun d => decide (d.value = .bool true)

def filterNode (lib : GoLib) (child : Operator) (pred : BoundExpr) : Operator where
  State := child.State
  init := child.init
  schema := child.schema
  plannerSchema := none
  openNode := child.openNode
  next := Cursor.filter child.next (holds lib pred)
  close := child.close

def projectNode (lib : GoLib) (child : Operator) (exprs : List ProjectionExpr)
    (outSchema : Schema) : Operator where
  State := child.State
  init := child.init
  schema := outSchema
  plannerSchema := none
  openNode := child.openNode
  next := Cursor.map child.next (projectRow lib exprs)
  close := child.close

section Limit
variable {σ : Type} (childNext : σ → Comp (Answer Err Row × σ)) (limit offset : Int64)

/-- How many rows were dropped and handed on. -/
structure LimitState (σ : Type) where
  child : σ
  skipped : ℕ
  emitted : ℕ

def limitBody (s : LimitState σ) : Comp (Round (LimitState σ) (Answer Err Row × LimitState σ)) := do
  match ← childNext s.child with
  | (.row row,c) =>
    if (s.skipped : ℤ) < offset.toInt then return .goOn ⟨c,s.skipped+1,s.emitted⟩
    else if 0 < limit.toInt ∧ limit.toInt < (s.emitted+1 : ℕ) then
      return .done (.eof,⟨c,s.skipped,s.emitted+1⟩)
    else return .done (.row row,⟨c,s.skipped,s.emitted+1⟩)
  | (.eof,c) => return .done (.eof,⟨c,s.skipped,s.emitted⟩)
  | (.err e,c) => return .done (.err e,⟨c,s.skipped,s.emitted⟩)

def limitNext : LimitState σ → Comp (Answer Err Row × LimitState σ) :=
  loop (limitBody childNext limit offset)

end Limit

def limitNode (child : Operator) (limit offset : Int64) : Operator where
  State := LimitState child.State
  init := ⟨child.init,0,0⟩
  schema := child.schema
  plannerSchema := none
  openNode s := do
    let (r,c) ← child.openNode s.child
    return (r,⟨c,0,0⟩)
  next := limitNext child.next limit offset
  close s := ((child.close s.child).1,{ s with child := (child.close s.child).2 })

/-- A column to sort by. -/
structure SortKey where
  colIdx : ℕ
  desc : Bool
  deriving DecidableEq

/-- The comparison of two rows; `datumEqual` and `datumLess` can fail an assertion. -/
def sortLess (lib : GoLib) : List SortKey → Row → Row → Except Err Bool
  | [],_,_ => .ok false
  | key::keys,r1,r2 =>
    match r1.datums[key.colIdx]?,r2.datums[key.colIdx]? with
    | some d1,some d2 => do
      if ← datumEqual lib d1 d2 then sortLess lib keys r1 r2
      else
        let n1 := decide (d1.value = .nil)
        let n2 := decide (d2.value = .nil)
        if n1≠n2 then return if key.desc then n2 else n1
        else
          let less ← datumLess lib d1 d2
          return if key.desc then !less else less
    | _,_ => .error .panic

/-- The sorted rows and how many are out. -/
structure SortState (σ : Type) where
  child : σ
  rows : List Row
  rowIdx : ℕ
  opened : Bool

def sortOpen (lib : GoLib) (child : Operator) (keys : List SortKey) (s : SortState child.State) :
    Comp (Except Err Unit × SortState child.State) := do
  match ← child.openNode s.child with
  | (.error e,c) => return (.error e,{ s with child := c })
  | (.ok _,c) =>
    match ← Cursor.collect child.next c with
    | (.error e,c) => return (.error e,{ s with child := c })
    | (.ok rows,c) =>
      match sliceStable (sortLess lib keys) rows with
      | .error e => return (.error e,{ s with child := c })
      | .ok rows => return (.ok (),⟨c,rows,0,true⟩)

def sortNext {σ : Type} (s : SortState σ) : Comp (Answer Err Row × SortState σ) :=
  if s.opened = false then return (.eof,s)
  else match s.rows[s.rowIdx]? with
    | none => return (.eof,s)
    | some row => return (.row row,{ s with rowIdx := s.rowIdx+1 })

def sortNode (lib : GoLib) (child : Operator) (keys : List SortKey) : Operator where
  State := SortState child.State
  init := ⟨child.init,[],0,false⟩
  schema := child.schema
  plannerSchema := none
  openNode := sortOpen lib child keys
  next := sortNext
  close s := ((child.close s.child).1,⟨(child.close s.child).2,[],s.rowIdx,false⟩)

section AnySort
variable (sort : (Row → Row → Except Err Bool) → List Row →
  Except Err (List Row)) (lib : GoLib) (child : Operator) (keys : List SortKey)

/-- `sortOpen` with another sort in the place of `sliceStable`. -/
def sortOpenBy (s : SortState child.State) : Comp (Except Err Unit × SortState child.State) := do
  match ← child.openNode s.child with
  | (.error e,c) => return (.error e,{ s with child := c })
  | (.ok _,c) =>
    match ← Cursor.collect child.next c with
    | (.error e,c) => return (.error e,{ s with child := c })
    | (.ok rows,c) =>
      match sort (sortLess lib keys) rows with
      | .error e => return (.error e,{ s with child := c })
      | .ok rows => return (.ok (),⟨c,rows,0,true⟩)

def sortNodeBy : Operator := { sortNode lib child keys with openNode := sortOpenBy sort lib child keys }

lemma sortNodeBy_slice : sortNodeBy sliceStable lib child keys = sortNode lib child keys := rfl

end AnySort

end Plomvix.Planner
