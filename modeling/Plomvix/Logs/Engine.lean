import Plomvix.Logs.Store

/-! Queries of the logs engine: the bounds and the pattern of a WHERE clause, and the search for
them. The retention worker. -/
namespace Plomvix.Logs
open Lib Pager PageLog Engine

/-- The right side of a comparison. What is not a string is given by its printed form. -/
inductive Operand
  | string (val : Bytes)
  | literal (text : Bytes)
  | column (text : Bytes)
  | argument (text : Bytes)
  | other (text : Bytes)
  deriving DecidableEq

inductive Operator
  | greaterEqual | lessEqual | greaterThan | lessThan | equal | like | notLike | other
  deriving DecidableEq

/-- The left side of a comparison is given by its printed form. -/
inductive Expr
  | and (l r : Expr)
  | comparison (left : Bytes) (op : Operator) (right : Operand)
  | between (left : Bytes) (isBetween : Bool) (lo hi : Operand)
  | or (l r : Expr)
  | not (e : Expr)
  | other
  deriving DecidableEq

def stripQuotes (s : Bytes) : Bytes :=
  if 2 ≤ s.length ∧ s.head? = some 39 ∧ s.getLast? = some 39 then s.tail.dropLast
  else if 2 ≤ s.length ∧ s.head? = some 34 ∧ s.getLast? = some 34 then s.tail.dropLast
  else s

/-- One `%` is taken off each end. -/
def trimPercents (s : Bytes) : Bytes :=
  let s := if s.head? = some 37 then s.tail else s
  if s.getLast? = some 37 then s.dropLast else s

/-- The bounds and the filter found so far. -/
structure Where where
  start : Int64
  stop : Int64
  bodyFilter : Bytes
  deriving DecidableEq

inductive EngineErr
  | unsupportedQuery
  /-- `logs engine: scan range: %w`. -/
  | scanRange (e : Fail)
  deriving DecidableEq

section Query
variable (lib : TextLib)

def Operand.print : Operand → Bytes
  | .string val => 39::(lib.escape val++[39])
  | .literal text | .column text | .argument text | .other text => text

def likeFilter (right : Operand) : Bytes := trimPercents (stripQuotes (right.print lib))

/-- A bound on the time; other columns are not looked at. -/
def timeBound (left : Bytes) (right : Operand) (set : Int64 → Where) (w : Where) : Option Where :=
  if lib.toLower left = ascii "time" then (parseInt (right.print lib)).map set else some w

def walkComparison (left : Bytes) (right : Operand) (w : Where) : Operator → Option Where
  | .greaterEqual => timeBound lib left right (fun v => { w with start := v }) w
  | .lessEqual => timeBound lib left right (fun v => { w with stop := v }) w
  | .greaterThan => timeBound lib left right (fun v => { w with start := v+1 }) w
  | .lessThan => timeBound lib left right (fun v => { w with stop := v-1 }) w
  | .equal => timeBound lib left right (fun v => { w with start := v, stop := v }) w
  | .like =>
    if lib.toLower left = ascii "body" then
      match right with
      | .column _ | .argument _ => none
      | _ => some { w with bodyFilter := likeFilter lib right }
    else some w
  | .notLike | .other => none

/-- `none` is unsupported, which a later part does not take back. -/
def walkLogsWhere : Expr → Where → Option Where
  | .and l r,w => (walkLogsWhere l w).bind (walkLogsWhere r)
  | .comparison left op right,w => walkComparison lib left right w op
  | .between left isBetween lo hi,w =>
    if ¬isBetween then some w
    else if lib.toLower left≠ascii "time" then none
    else do
      let v₁ ← parseInt (lo.print lib)
      let v₂ ← parseInt (hi.print lib)
      pure { w with start := v₁, stop := v₂ }
  | .or _ _,_ | .not _,_ => none
  | .other,w => some w

def parseLogsWhere : Option Expr → Option Where
  | none => some ⟨0,0,[]⟩
  | some e => walkLogsWhere lib e ⟨0,0,[]⟩

def executeSelect (order : List ℕ → List ℕ) (where_ : Option Expr) (s : Store Enterprise) :
    Except EngineErr (List LogRecord) × Store Enterprise :=
  match parseLogsWhere lib where_ with
  | none => (.error .unsupportedQuery,s)
  | some w =>
    let (r,s') :=
      if s.index.tokenIndex.isSome ∧ w.bodyFilter≠[] then
        scanRangeWithIndex lib order w.start w.stop (tokenize lib w.bodyFilter) s
      else scanRange lib w.start w.stop w.bodyFilter s
    (r.mapError .scanRange,s')

end Query

def freePages : List ℕ → Cmd Enterprise Unit
  | [] => pure ()
  | id::ids => do
    (call (·.freePage id)).handle fun
      | .err _ => pure ()
      | e => .stop e
    freePages ids

/-- One pass of the retention worker: expired blocks are freed, and the index forgets expired records. -/
def retentionSweep (cutoff : Int64) : Cmd Enterprise Unit := do
  let s ← Prog.get
  freePages ((s.index.blockDirectory.filter (·.maxTimestamp < cutoff)).flatMap fun entry =>
    List.range' entry.startPageID entry.pageCount)
  Prog.modify fun s => { s with index := ⟨s.index.tokenIndex.map (·.sweep cutoff),
    s.index.blockDirectory.filter (cutoff ≤ ·.maxTimestamp)⟩ }

end Plomvix.Logs
