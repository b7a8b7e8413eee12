import Plomvix.Planner.Pipeline
import Plomvix.Lib.Fallible
import Plomvix.Engine.Sql

/-! What the translator makes of the clauses of a SELECT, and a table to run one on. -/
namespace Plomvix.Planner
open Lib Engine Plomvix.Lib.Fallible

/-- A table that a request finds: its rows are those its heap hands out. -/
structure StoredTable (env : Env) where
  name : Bytes
  info : TableInfo
  schema : Schema
  heap : TableHeap
  iter : HeapScanIterator
  rows : List Row
  named : name≠[]
  found : env.getTable name = .ok info
  decoded : Schema.decode info.schemaPayload = .ok schema
  opened : env.getTableHeap info.tableID = .ok heap
  scanned : heap.scan env.tx = .ok iter
  read : Decodes env.decoder schema iter.tuples rows

section Plan
variable {lib : PlanLib} {env : Env} {sel : Select} {op : Operator} {as : Bytes} {out : List Row}

def whereNode (lib : GoLib) (op : Operator) : Option BoundExpr → Operator
  | none => op
  | some pred => filterNode lib op pred

/-- Without ORDER BY there is no node. -/
def orderNode (lib : GoLib) (op : Operator) (orders : List Order) (keys : List SortKey) : Operator :=
  if orders = [] then op else sortNode lib op keys

def orderKeys (outSchema : Schema) (orders : List Order) : Except Err (List SortKey) :=
  orders.mapM fun o => (keyIndex "planner: ORDER BY column %q not found" outSchema o.expr).map
    fun idx => SortKey.mk idx o.desc

lemma translateWhere_ok {lib : GoLib} {op op' : Operator} {where? : Option Expr}
    (h : translateWhere lib op where? = .ok op') :
    ∃ pred, where?.mapM (bindWherePlanner lib (getPlannerSchema op)) = .ok pred ∧
      op' = whereNode lib op pred := by
  cases where? with
  | none =>
    cases h
    exact ⟨none,rfl,rfl⟩
  | some expr =>
    rw [translateWhere] at h
    cases hb : bindWherePlanner lib (getPlannerSchema op) expr with
    | error e =>
      rw [hb] at h
      cases h
    | ok pred =>
      rw [hb] at h
      cases h
      exact ⟨some pred,by simp [Option.mapM,hb],rfl⟩

lemma translateProjection_ok {lib : GoLib} {op op' : Operator} {exprs : List SelectItem}
    (h : translateProjection lib op exprs = .ok op') :
    ∃ projs, bindProjections lib (getPlannerSchema op) (exprs.map (·.toSelectExpr)) = .ok projs ∧
      op' = projectNode lib op projs ⟨projs.map (·.col)⟩ := by
  rw [translateProjection] at h
  split at h
  · cases h
  · rename_i projs hprojs
    cases h
    exact ⟨projs,hprojs,rfl⟩

lemma translateOrderBy_ok {lib : GoLib} {op op' : Operator} {orders : List Order}
    (h : translateOrderBy lib op orders = .ok op') :
    ∃ keys, orderKeys op.schema orders = .ok keys ∧ op' = orderNode lib op orders keys := by
  rw [translateOrderBy] at h
  by_cases horders : orders = []
  · rw [if_pos horders] at h
    cases h
    subst horders
    exact ⟨[],rfl,rfl⟩
  · rw [if_neg horders] at h
    cases hkeys : orderKeys op.schema orders with
    | error e =>
      rw [orderKeys] at hkeys
      rw [hkeys] at h
      cases h
    | ok keys =>
      rw [orderKeys] at hkeys
      rw [hkeys] at h
      cases h
      exact ⟨keys,rfl,by rw [orderNode,if_neg horders]⟩

end Plan

def plainPlanLib : PlanLib where
  toGoLib := plainLib
  toUpper b := b.map fun c => if 97 ≤ c ∧ c ≤ 122 then c-32 else c
  formatFloat _ := []
  floatAdd a _ := a

def pairsSchema : Schema := ⟨[⟨ascii "a",.int64,false,none⟩,⟨ascii "b",.string,false,none⟩]⟩

def pairs : List Row :=
  [⟨[⟨.int64,.int64 2⟩,⟨.string,.string (ascii "x")⟩],1⟩,
    ⟨[⟨.int64,.int64 1⟩,⟨.string,.string (ascii "y")⟩],2⟩,
    ⟨[⟨.int64,.int64 3⟩,⟨.string,.string (ascii "x")⟩],3⟩]

def pairsIter : HeapScanIterator :=
  ⟨pairs.map fun row => (encodeRowToBytes row.vals).map fun encoded => (encoded,row.rowID),.ok ()⟩

def pairsInfo : TableInfo := ⟨1000,pairsSchema.encode.toOption.getD []⟩

def pairsEnv : Env where
  getTable name := if name = ascii "t" then .ok pairsInfo else .error .tableNotFound
  getTableHeap _ := .ok ⟨fun _ => .ok pairsIter⟩
  decoder := decodeRow
  tx := ⟨1,0⟩

def pairsTable : StoredTable pairsEnv where
  name := ascii "t"
  info := pairsInfo
  schema := pairsSchema
  heap := ⟨fun _ => .ok pairsIter⟩
  iter := pairsIter
  rows := pairs
  named := by decide
  found := rfl
  decoded := by decide +kernel
  opened := rfl
  scanned := rfl
  read := .cons ⟨_,rfl,by decide +kernel⟩
    (.cons ⟨_,rfl,by decide +kernel⟩ (.cons ⟨_,rfl,by decide +kernel⟩ .nil))

def answer (lib : PlanLib) (env : Env) (sel : Select) (fuel : ℕ) : Option (Except Err (List Row)) :=
  match translate lib env (some sel) with
  | .error e => some (.error e)
  | .ok op => op.drain.run fuel

lemma runs_of_answer {lib : PlanLib} {env : Env} {sel : Select} {rows : List Row} (fuel : ℕ)
    (h : answer lib env sel fuel = some (.ok rows)) : ∃ op, translate lib env (some sel) = .ok op ∧
      op.Runs rows := by
  rw [answer] at h
  split at h
  · cases h
  · exact ⟨_,‹_›,runs_of_drain ⟨fuel,h⟩⟩

end Plomvix.Planner
