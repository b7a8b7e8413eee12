import Plomvix.Planner.Operator

/-! The two join operators, inner or left outer. The nested loop reads its right child again for
every row of the left one; the hash join reads it once, when it is opened. -/
namespace Plomvix.Planner
open Lib Engine Plomvix.Lib.Comp

/-- A joined row has no id. -/
def combineRows (left right : List Datum) : Row := ⟨left++right,0⟩

def nullPadRight (left : List Datum) (rightSchema : Schema) : Row :=
  ⟨left++rightSchema.columns.map fun col => ⟨col.typ,.nil⟩,0⟩

/-- Without a condition every pair of rows is joined. -/
def matchesCond (lib : GoLib) (cond : Option BoundExpr) (row : Row) : Except Err Bool :=
  match cond with
  | none => .ok true
  | some pred => holds lib pred row

/-- Where the nested loop stands. -/
structure LoopState (σ τ : Type) where
  left : σ
  right : τ
  /-- Without datums there is no row on the left. -/
  leftRow : List Datum
  leftMatched : Bool

section NestedLoop
variable (lib : GoLib) (left right : Operator) (cond : Option BoundExpr) (isLeftJoin : Bool)

def nestedLoopOpen (s : LoopState left.State right.State) :
    Comp (Except Err Unit × LoopState left.State right.State) := do
  match ← left.openNode s.left with
  | (.error e,l) => return (.error e,{ s with left := l })
  | (.ok _,l) =>
    match ← right.openNode s.right with
    | (.error e,r) => return (.error e,{ s with left := (left.close l).2, right := r })
    | (.ok _,r) =>
      match ← left.next l with
      | (.eof,l) => return (.ok (),⟨l,r,[],s.leftMatched⟩)
      | (.err e,l) => return (.error e,{ s with left := (left.close l).2, right := (right.close r).2 })
      | (.row lr,l) => return (.ok (),⟨l,r,lr.datums,false⟩)

/-- The right child is at its end and opened again: a row on the left that nothing matched is padded. -/
def nestedLoopAdvance (s : LoopState left.State right.State) :
    Comp (Round (LoopState left.State right.State)
      (Answer Err Row × LoopState left.State right.State)) := do
  let pads := isLeftJoin && !s.leftMatched
  let padded := nullPadRight s.leftRow right.schema
  let (closed,r) := right.close s.right
  match (if pads then .ok () else closed) with
  | .error e => return .done (.err e,{ s with right := r })
  | .ok _ =>
    match ← right.openNode r with
    | (.error e,r) => return .done (.err e,{ s with right := r })
    | (.ok _,r) =>
      match ← left.next s.left with
      | (.eof,l) => return .done (if pads then .row padded else .eof,⟨l,r,[],s.leftMatched⟩)
      | (.err e,l) => return .done (.err e,⟨l,r,[],s.leftMatched⟩)
      | (.row lr,l) =>
        if pads then return .done (.row padded,⟨l,r,lr.datums,false⟩) else
          return .goOn ⟨l,r,lr.datums,false⟩

def nestedLoopBody (s : LoopState left.State right.State) :
    Comp (Round (LoopState left.State right.State)
      (Answer Err Row × LoopState left.State right.State)) := do
  if s.leftRow = [] then return .done (.eof,s)
  else
    match ← right.next s.right with
    | (.eof,r) => nestedLoopAdvance left right isLeftJoin { s with right := r }
    | (.err e,r) => return .done (.err e,{ s with right := r })
    | (.row rr,r) =>
      match matchesCond lib cond (combineRows s.leftRow rr.datums) with
      | .error e => return .done (.err e,{ s with right := r })
      | .ok true =>
        return .done (.row (combineRows s.leftRow rr.datums),
          { s with right := r, leftMatched := true })
      | .ok false => return .goOn { s with right := r }

def nestedLoopJoinNode : Operator where
  State := LoopState left.State right.State
  init := ⟨left.init,right.init,[],false⟩
  schema := toEngineSchema (getPlannerSchema left++getPlannerSchema right)
  plannerSchema := some (getPlannerSchema left++getPlannerSchema right)
  openNode := nestedLoopOpen left right
  next := loop (nestedLoopBody lib left right cond isLeftJoin)
  close s := (match (left.close s.left).1 with
    | .error e => .error e
    | .ok _ => (right.close s.right).1,⟨(left.close s.left).2,(right.close s.right).2,[],s.leftMatched⟩)

end NestedLoop

def decimalInt (i : Int64) : Bytes := if i < 0 then 45::decimal i.toInt.natAbs else decimal i.toInt.natAbs

/-- The key of NULL is empty, and no row is found under it. -/
def encodeHashKey (lib : PlanLib) (d : Datum) : Except Err Bytes :=
  if d.value = .nil then .ok []
  else match d.typ with
    | .int64 => match d.value with | .int64 i => .ok (ascii "i:"++decimalInt i) | _ => .error .panic
    | .uint64 => match d.value with | .uint64 n => .ok (ascii "u:"++decimal n.toNat) | _ => .error .panic
    | .float64 =>
      match d.value with | .float64 f => .ok (ascii "f:"++lib.formatFloat f) | _ => .error .panic
    | .bool => match d.value with
      | .bool b => .ok (ascii "b:"++ascii (if b then "true" else "false"))
      | _ => .error .panic
    | .string => match d.value with | .string s => .ok (ascii "s:"++s) | _ => .error .panic
    | _ => .error (.format "planner: unsupported join key type" [])

def hashKeyAt (lib : PlanLib) (key : ℕ) (row : Row) : Except Err Bytes :=
  match row.datums[key]? with
  | none => .error .panic
  | some d => encodeHashKey lib d

abbrev HashTable := List (Bytes × List Row)

def HashTable.add (table : HashTable) (key : Bytes) (row : Row) : HashTable :=
  Assoc.put key ((Assoc.lookup key table).getD []++[row]) table

/-- A row of the right child, unless its key is NULL. -/
def HashTable.addRow (lib : PlanLib) (rightKey : ℕ) (table : HashTable) (row : Row) :
    Except Err HashTable := do
  let key ← hashKeyAt lib rightKey row
  return if key = [] then table else table.add key row

/-- Where the hash join stands. -/
structure HashState (σ τ : Type) where
  left : σ
  right : τ
  hashTable : HashTable
  rightClosed : Bool
  activeProbe : List Datum
  activeMatches : List Row
  matchIdx : ℕ
  matchedAny : Bool

section Hash
variable (lib : PlanLib) (left right : Operator) (leftKey rightKey : ℕ) (isLeftJoin : Bool)
  (residual : Option BoundExpr)

/-- An error of the right child or of a key closes both children. -/
def hashOpen (s : HashState left.State right.State) :
    Comp (Except Err Unit × HashState left.State right.State) := do
  match ← left.openNode s.left with
  | (.error e,l) => return (.error e,{ s with left := l })
  | (.ok _,l) =>
    match ← right.openNode s.right with
    | (.error e,r) =>
      return (.error e,{ s with left := (left.close l).2, right := r, rightClosed := false })
    | (.ok _,r) =>
      match ← Cursor.fold right.next (HashTable.addRow lib rightKey) [] r with
      | (.error e,r) => return (.error e,⟨(left.close l).2,(right.close r).2,[],true,[],[],0,false⟩)
      | (.ok table,r) => return (.ok (),⟨l,(right.close r).2,table,true,[],[],0,false⟩)

def hashBody (s : HashState left.State right.State) :
    Comp (Round (HashState left.State right.State)
      (Answer Err Row × HashState left.State right.State)) := do
  match s.activeMatches[s.matchIdx]? with
  | some found =>
    match matchesCond lib.toGoLib residual (combineRows s.activeProbe found.datums) with
    | .error e => return .done (.err e,{ s with matchIdx := s.matchIdx+1 })
    | .ok true =>
      return .done (.row (combineRows s.activeProbe found.datums),
        { s with matchIdx := s.matchIdx+1, matchedAny := true })
    | .ok false => return .goOn { s with matchIdx := s.matchIdx+1 }
  | none =>
    if isLeftJoin && decide (s.activeProbe≠[]) && !s.matchedAny then
      return .done (.row (nullPadRight s.activeProbe right.schema),{ s with activeProbe := [] })
    else
      match ← left.next s.left with
      | (.eof,l) => return .done (.eof,{ s with left := l })
      | (.err e,l) => return .done (.err e,{ s with left := l })
      | (.row pr,l) =>
        let s := { s with left := l, activeProbe := pr.datums, matchedAny := false }
        match hashKeyAt lib leftKey pr with
        | .error e => return .done (.err e,s)
        | .ok key =>
          if key = [] then return .goOn { s with activeMatches := [], matchIdx := 0 }
          else return .goOn { s with
            activeMatches := (Assoc.lookup key s.hashTable).getD [], matchIdx := 0 }

def hashJoinNode : Operator where
  State := HashState left.State right.State
  init := ⟨left.init,right.init,[],false,[],[],0,false⟩
  schema := toEngineSchema (getPlannerSchema left++getPlannerSchema right)
  plannerSchema := some (getPlannerSchema left++getPlannerSchema right)
  openNode := hashOpen lib left right rightKey
  next := loop (hashBody lib left right leftKey isLeftJoin residual)
  close s :=
    let (closedLeft,l) := left.close s.left
    let (closedRight,r) := if s.rightClosed then (.ok (),s.right) else right.close s.right
    (match closedLeft with | .error e => .error e | .ok _ => closedRight,
      { s with
        left := l, right := r, hashTable := [], activeProbe := [], activeMatches :=
        [], rightClosed := true })

end Hash

end Plomvix.Planner
