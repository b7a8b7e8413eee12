import Plomvix.Planner.Join

/-! The operator of GROUP BY: the rows are put into groups by a key text, and every group keeps one
accumulator for each aggregate. -/
namespace Plomvix.Planner
open Lib Engine Plomvix.Lib.Comp

inductive AggOp
  | count | sum | min | max
  deriving DecidableEq

/-- Without a column it is COUNT(*). -/
structure AggRequest where
  op : AggOp
  colIdx : Option ℕ
  deriving DecidableEq

/-- One aggregate of one group. -/
structure AggAccumulator where
  op : AggOp
  count : Int64
  sum : Datum
  min : Datum
  max : Datum
  hasVal : Bool
  deriving DecidableEq

def nullDatum : Datum := ⟨.null,.nil⟩

def AggAccumulator.new (op : AggOp) : AggAccumulator := ⟨op,0,nullDatum,nullDatum,nullDatum,false⟩

def addDatums (lib : PlanLib) (a b : Datum) : Except Err Datum :=
  match a.typ with
  | .int64 =>
    match a.value with
    | .int64 av =>
      match b.value with
      | .float64 fb => .ok ⟨.float64,.float64 (lib.floatAdd (lib.floatOfInt av) fb)⟩
      | .int64 bv => .ok ⟨.int64,.int64 (av+bv)⟩
      | _ => .ok ⟨.int64,.int64 av⟩
    | _ => .error .panic
  | .float64 =>
    match a.value with
    | .float64 av =>
      match b.value with
      | .int64 ib => .ok ⟨.float64,.float64 (lib.floatAdd av (lib.floatOfInt ib))⟩
      | .float64 fb => .ok ⟨.float64,.float64 (lib.floatAdd av fb)⟩
      | _ => .ok ⟨.float64,.float64 (lib.floatAdd av (lib.floatOfInt 0))⟩
    | _ => .error .panic
  | _ => .ok a

def AggAccumulator.accumulate (lib : PlanLib) (acc : AggAccumulator) (val : Datum) :
    Except Err AggAccumulator :=
  if acc.op = .count then .ok { acc with count := acc.count+1 }
  else if val.value = .nil then .ok acc
  else if acc.hasVal = false then .ok { acc with sum := val, min := val, max := val, hasVal := true }
  else match acc.op with
    | .sum => do return { acc with sum := ← addDatums lib acc.sum val }
    | .min => do if ← datumLess lib.toGoLib val acc.min then return { acc with min := val } else return acc
    | .max => do if ← datumLess lib.toGoLib acc.max val then return { acc with max := val } else return acc
    | .count => .ok acc

def AggAccumulator.result (acc : AggAccumulator) : Datum :=
  if acc.op = .count then ⟨.int64,.int64 acc.count⟩
  else if acc.hasVal = false then nullDatum
  else match acc.op with
    | .sum => acc.sum
    | .min => acc.min
    | .max => acc.max
    | .count => nullDatum

def serializeDatum (lib : PlanLib) (d : Datum) : Except Err Bytes :=
  if d.value = .nil then .ok (ascii "N")
  else match d.typ with
    | .int64 => match d.value with | .int64 i => .ok (ascii "I"++decimalInt i) | _ => .error .panic
    | .uint64 => match d.value with | .uint64 n => .ok (ascii "U"++decimal n.toNat) | _ => .error .panic
    | .float64 =>
      match d.value with | .float64 f => .ok (ascii "F"++lib.formatFloat f) | _ => .error .panic
    | .bool => match d.value with | .bool b => .ok (ascii (if b then "BT" else "BF")) | _ => .error .panic
    | .string => match d.value with | .string s => .ok (ascii "S"++s) | _ => .error .panic
    | .bytes => match d.value with
      | .bytes b => .ok (ascii "B"++decimal b.length++ascii ":"++b)
      | _ => .error .panic
    | _ => .ok (ascii "?")

/-- `strings.Join` with a zero byte. -/
def joinKey (parts : List Bytes) : Bytes := List.intercalate [0] parts

def groupDatums (groupKeys : List ℕ) (row : Row) : Except Err (List Datum) :=
  groupKeys.mapM fun gk => match row.datums[gk]? with
    | none => .error .panic
    | some d => .ok d

def accumulateAll (lib : PlanLib) (row : Row) :
    List (AggRequest × AggAccumulator) → Except Err (List AggAccumulator)
  | [] => .ok []
  | (agg,acc)::rest => do
    let val ← match agg.colIdx with
      | none => .ok nullDatum
      | some idx => match row.datums[idx]? with
        | none => .error .panic
        | some d => .ok d
    return (← acc.accumulate lib val)::(← accumulateAll lib row rest)

/-- The groups in the order of their first rows, each under its key. -/
abbrev Groups := List (Bytes × List Datum × List AggAccumulator)

def Groups.addRow (lib : PlanLib) (groupKeys : List ℕ) (aggs : List AggRequest) (groups : Groups)
    (row : Row) : Except Err Groups := do
  let datums ← groupDatums groupKeys row
  let key := joinKey (← datums.mapM (serializeDatum lib))
  match groups.find? fun g => g.1 = key with
  | none =>
    return groups++[(key,datums,
      ← accumulateAll lib row (aggs.zip (aggs.map fun agg => .new agg.op)))]
  | some found =>
    let accums ← accumulateAll lib row (aggs.zip found.2.2)
    return groups.map fun g => if g.1 = key then (g.1,g.2.1,accums) else g

/-- The groups gathered and how many are out. -/
structure AggState (σ : Type) where
  child : σ
  groups : Groups
  outputIdx : ℕ
  opened : Bool

def AggOp.name : AggOp → Bytes
  | .count => ascii "count"
  | .sum => ascii "sum"
  | .min => ascii "min"
  | .max => ascii "max"

def aggResultType (agg : AggRequest) (schema : Schema) : Typ :=
  if agg.op = .count then .int64
  else match agg.colIdx with
    | none => .null
    | some idx => ((schema.columns[idx]?).map (·.typ)).getD .null

section Node
variable (lib : PlanLib) (child : Operator) (groupKeys : List ℕ) (aggs : List AggRequest)

def hashAggSchema : Schema :=
  ⟨groupKeys.filterMap (fun gk => child.schema.columns[gk]?)++
    aggs.map fun agg => ⟨agg.op.name,aggResultType agg child.schema,false,none⟩⟩

def hashAggOpen (s : AggState child.State) : Comp (Except Err Unit × AggState child.State) := do
  match ← child.openNode s.child with
  | (.error e,c) => return (.error e,{ s with child := c })
  | (.ok _,c) =>
    match ← Cursor.fold child.next (Groups.addRow lib groupKeys aggs) [] c with
    | (.error e,c) => return (.error e,⟨(child.close c).2,[],0,s.opened⟩)
    | (.ok groups,c) => return (.ok (),⟨c,groups,0,true⟩)

/-- Without groups and without keys every call answers with the row of the empty input. -/
def hashAggNext (s : AggState child.State) : Comp (Answer Err Row × AggState child.State) :=
  if s.opened = false then return (.eof,s)
  else if groupKeys = [] ∧ s.groups = [] then
    return (.row ⟨aggs.map fun agg => (AggAccumulator.new agg.op).result,0⟩,{ s with outputIdx := 1 })
  else match s.groups[s.outputIdx]? with
    | none => return (.eof,s)
    | some g => return (.row ⟨g.2.1++g.2.2.map (·.result),0⟩,{ s with outputIdx := s.outputIdx+1 })

def hashAggNode : Operator where
  State := AggState child.State
  init := ⟨child.init,[],0,false⟩
  schema := hashAggSchema child groupKeys aggs
  plannerSchema := none
  openNode := hashAggOpen lib child groupKeys aggs
  next := hashAggNext child groupKeys aggs
  close s := ((child.close s.child).1,⟨(child.close s.child).2,[],s.outputIdx,false⟩)

end Node
end Plomvix.Planner
