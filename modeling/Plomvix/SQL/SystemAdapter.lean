import Plomvix.SQL.Heap
import Plomvix.SQL.SortKey
import Plomvix.Engine.Schema

/-! The system tables of `factory.go`: a heap that keeps one version of each row in the key-value
store, and the adapter that makes a table of keys and values of it. -/
namespace Plomvix.SQL.SystemAdapter
open Lib
open Engine (Row Datum Value)

inductive Err
  | notFound
  | fewColumns
  | keyType
  | key (e : SortKey.Fault)
  | store (e : SQL.Err)
  deriving DecidableEq

def rowToKey (d : Datum) : Except Err Bytes :=
  match d.value with
  | .bytes b => .ok (SortKey.encodeBytes b).data
  | .string s => ((SortKey.encodeString s).map SortKey.Key.data).mapError .key
  | _ => .error .keyType

def encodeSystemValue (version : UInt64) (row : Row) : Bytes :=
  match row.datums with
  | _::d::_ =>
    match d.value with
    | .bytes b => be64 version++b
    | .string s => be64 version++s
    | _ => []
  | _ => []

/-- No value if the version is too high, or if the value is empty. -/
def decodeSystemValue (b : Bytes) (readTxID : UInt64) : Option Bytes :=
  if b.length < 8 then none
  else if readTxID < getUint64 b then none
  else if b.drop 8 = [] then none
  else some (b.drop 8)

def heapInsert (lim : Limits) (writeTxID : UInt64) (row : Row) (st : Entries) :
    Except Err Unit × Entries :=
  match row.datums with
  | d::_::_ =>
    match rowToKey d with
    | .error e => (.error e,st)
    | .ok k =>
      ((storeSet lim k (encodeSystemValue writeTxID row) st).1.mapError .store,
        (storeSet lim k (encodeSystemValue writeTxID row) st).2)
  | _ => (.error .fewColumns,st)

def pairRow (k v : Bytes) : Row := ⟨[⟨.bytes,.bytes k⟩,⟨.bytes,.bytes v⟩],0⟩

def heapScan (readTxID : UInt64) (st : Entries) : List Row :=
  (storeScan st [] []).filterMap fun e => (decodeSystemValue e.2 readTxID).map (pairRow e.1)

/-- The adapter of the system tables. -/
structure Adapter where
  nextTxID : UInt64
  store : Entries

def maxTxID : UInt64 := 0xFFFFFFFFFFFFFFFF

def newSystemHeapAdapter (st : Entries) : Adapter := ⟨0,st⟩

def put (lim : Limits) (k v : Bytes) (a : Adapter) : Except Err Unit × Adapter :=
  let r := heapInsert lim (a.nextTxID+1) (pairRow k v) a.store
  (r.1,⟨a.nextTxID+1,r.2⟩)

def delete (lim : Limits) (k : Bytes) (a : Adapter) : Except Err Unit × Adapter :=
  let r := heapInsert lim (a.nextTxID+1) (pairRow k []) a.store
  (r.1,⟨a.nextTxID+1,r.2⟩)

/-- The value of a row, none for a tombstone; a value of another type leaves the last one. -/
def rowValue (last : Option Bytes) (d : Datum) : Option Bytes :=
  match d.value with
  | .nil => none
  | .bytes b => if b = [] then none else some b
  | _ => last

/-- One turn of the loop of `Get`: the latest value, and whether the key was found. -/
def getTurn (key : Bytes) (s : Option Bytes × Bool) (row : Row) : Option Bytes × Bool :=
  match row.datums with
  | kd::vd::_ => if kd.value = .bytes key then (rowValue s.1 vd,true) else s
  | _ => s

def get (key : Bytes) (a : Adapter) : Except Err Bytes :=
  match (heapScan maxTxID a.store).foldl (getTurn key) (none,false) with
  | (some v,true) => .ok v
  | _ => .error .notFound

/-- One turn of the first loop of `Scan`; the map has a value or nil under a key. -/
def scanTurn (latest : Bytes → Option (Option Bytes)) (row : Row) : Bytes → Option (Option Bytes) :=
  match row.datums with
  | kd::vd::_ =>
    match kd.value with
    | .bytes k =>
      match vd.value with
      | .nil => Function.update latest k (some none)
      | .bytes b => Function.update latest k (some (if b = [] then none else some b))
      | _ => latest
    | _ => latest
  | _ => latest

/-- What a scan gathers before it calls back. -/
def latestOf (a : Adapter) : Bytes → Option (Option Bytes) :=
  (heapScan maxTxID a.store).foldl scanTurn fun _ => none

/-- The second loop, over the keys of the map in some order: the calls of the function, up to its
first error. -/
def callAll {E : Type} (fn : Bytes → Bytes → Option E) (latest : Bytes → Option (Option Bytes)) :
    List Bytes → List (Bytes × Bytes) × Option E
  | [] => ([],none)
  | k::ks =>
    match latest k with
    | some (some v) =>
      match fn k v with
      | some e => ([(k,v)],some e)
      | none => ((k,v)::(callAll fn latest ks).1,(callAll fn latest ks).2)
    | _ => callAll fn latest ks

/-- An order in which Go may go through the map. -/
structure Visits (order : List Bytes) (latest : Bytes → Option (Option Bytes)) : Prop where
  nodup : order.Nodup
  mem : ∀ k, k ∈ order ↔ (latest k).isSome

/-- What can happen: a new adapter over the same heap, and calls of the adapter that is there. -/
inductive Op
  | newAdapter
  | put (k v : Bytes)
  | delete (k : Bytes)

def step (lim : Limits) (a : Adapter) : Op → Adapter
  | .newAdapter => newSystemHeapAdapter a.store
  | .put k v => (put lim k v a).2
  | .delete k => (delete lim k a).2

/-- The value put last under each key that the store took, if it is not empty and was not deleted since. -/
def record (lim : Limits) (a : Adapter) (last : Bytes → Option Bytes) : Op → Bytes → Option Bytes
  | .newAdapter => last
  | .put k v =>
    if (put lim k v a).1.isOk then Function.update last k (if v = [] then none else some v) else
      last
  | .delete k => if (delete lim k a).1.isOk then Function.update last k none else last

/-- The calls, with the map they should make. -/
def run (lim : Limits) (ops : List Op) : Adapter × (Bytes → Option Bytes) :=
  ops.foldl (fun s op => (step lim s.1 op,record lim s.1 s.2 op)) (newSystemHeapAdapter [],fun _ => none)

section Store
variable {st : Entries} {k v : Bytes}

/-- What the store holds under a key. -/
def current (st : Entries) (k : Bytes) : Option Bytes :=
  (Assoc.lookup k st).bind fun b => decodeSystemValue b maxTxID

lemma decode_encode (version : UInt64) (k v : Bytes) :
    decodeSystemValue (encodeSystemValue version (pairRow k v)) maxTxID = if v = [] then none else
      some v := by
  have hmax : ¬ maxTxID < version := by
    rw [UInt64.lt_iff_toNat_lt]
    have hlt := version.toNat_lt
    have hmax : maxTxID.toNat = 2^64-1 := rfl
    omega
  have hdrop : (be64 version++v).drop 8 = v := by rw [← be64_length version,List.drop_left]
  change decodeSystemValue (be64 version++v) maxTxID = _
  rw [decodeSystemValue,if_neg (by simp),getUint64_append,if_neg hmax,hdrop]

lemma heapInsert_pair (lim : Limits) (version : UInt64) (k v : Bytes) (st : Entries) :
    heapInsert lim version (pairRow k v) st =
      if lim.accepts k (be64 version++v) then (.ok (),Assoc.put k (be64 version++v) st) else
        (.error (.store .store),st) := by
  change ((storeSet lim k (be64 version++v) st).1.mapError Err.store,
    (storeSet lim k (be64 version++v) st).2) = _
  rw [storeSet]
  split_ifs <;> rfl

lemma current_put (version : UInt64) (k v j : Bytes) (st : Entries) :
    current (Assoc.put k (be64 version++v) st) j = Function.update (current st) k (if v = [] then
      none else some v) j := by
  rw [current,Assoc.lookup_put]
  by_cases hj : j = k
  · rw [if_pos hj,hj,Function.update_self]
    exact decode_encode version k v
  · rw [if_neg hj,Function.update_of_ne hj]
    rfl

lemma decode_ne_nil {b : Bytes} {readTxID : UInt64} (h : decodeSystemValue b readTxID = some v) :
    v≠[] := by
  rw [decodeSystemValue] at h
  split_ifs at h with _ _ hnil
  exact fun hv => hnil ((Option.some.inj h).trans hv)

lemma heapScan_cons (e : Bytes × Bytes) (st : Entries) :
    heapScan maxTxID (e::st) = ((decodeSystemValue e.2 maxTxID).map (pairRow e.1)).toList++heapScan
      maxTxID st := by
  have hall (st : Entries) : storeScan st [] [] = st := List.filter_eq_self.mpr (by simp [KV.InRange])
  rw [heapScan,heapScan,hall,hall,List.filterMap_cons]
  cases decodeSystemValue e.2 maxTxID <;> rfl

lemma current_cons (e : Bytes × Bytes) (st : Entries) (k : Bytes) :
    current (e::st) k = if e.1 = k then decodeSystemValue e.2 maxTxID else current st k := by
  rw [current,Assoc.lookup]
  split_ifs <;> rfl

lemma current_of_above {e : Bytes × Bytes} (hs : Assoc.Sorted (e::st)) : current st e.1 = none := by
  rw [current,Assoc.lookup_none fun x hx => ((Assoc.sorted_cons.mp hs).1 x hx).ne']
  rfl

lemma scan_fold {σ β : Type} {turn : σ → Row → σ} {found : Bytes → β} (read : σ → β)
    (hs : Assoc.Sorted st) (key : Bytes)
    (hturn : ∀ s k v, v≠[] → read (turn s (pairRow k v)) = if k = key then found v else read s) (s : σ) :
    read ((heapScan maxTxID st).foldl turn s) = match current st key with
      | some v => found v
      | none => read s := by
  induction st generalizing s with
  | nil => rfl
  | cons e st ih =>
    rw [heapScan_cons,List.foldl_append,ih (Assoc.sorted_cons.mp hs).2,current_cons]
    cases hd : decodeSystemValue e.2 maxTxID with
    | none =>
      split_ifs with hk
      · rw [← hk,current_of_above hs]
        rfl
      · rfl
    | some v =>
      change (match current st key with | some v => found v | none => read (turn s (pairRow e.1 v))) = _
      rw [hturn _ _ _ (decode_ne_nil hd)]
      split_ifs with hk
      · rw [← hk,current_of_above hs]
      · rfl

lemma getLoop (hs : Assoc.Sorted st) (key : Bytes) (s : Option Bytes × Bool) :
    (heapScan maxTxID st).foldl (getTurn key) s = match current st key with
      | some v => (some v,true)
      | none => s := by
  refine scan_fold id hs key (fun s k v hv => ?_) s
  simp [getTurn,pairRow,rowValue,hv]

lemma scanLoop (hs : Assoc.Sorted st) (latest : Bytes → Option (Option Bytes)) (k : Bytes) :
    (heapScan maxTxID st).foldl scanTurn latest k = match current st k with
      | some v => some (some v)
      | none => latest k := by
  refine scan_fold (· k) hs k (fun latest j v hv => ?_) latest
  simp [scanTurn,pairRow,hv,Function.update_apply,eq_comm]

end Store

section Calls
variable {E : Type} {fn : Bytes → Bytes → Option E}
  {latest : Bytes → Option (Option Bytes)} {order : List Bytes}

lemma callAll_keys (fn : Bytes → Bytes → Option E) (latest : Bytes → Option (Option Bytes))
    (order : List Bytes) :
    ((callAll fn latest order).1.map Prod.fst).Sublist order := by
  induction order with
  | nil => exact .slnil
  | cons k ks ih =>
    rw [callAll]
    split
    · split
      · exact (List.nil_sublist ks).cons_cons k
      · exact ih.cons_cons k
    · exact ih.cons k

lemma callAll_live : ∀ x ∈ (callAll fn latest order).1, latest x.1 = some (some x.2) := by
  induction order with
  | nil => nofun
  | cons k ks ih =>
    rw [callAll]
    split
    · rename_i v hk
      split
      · simpa using hk
      · exact List.forall_mem_cons.mpr ⟨hk,ih⟩
    · exact ih

lemma callAll_complete (h : (callAll fn latest order).2 = none) {k v : Bytes} (hk : k ∈ order)
    (hv : latest k = some (some v)) :
    (k,v) ∈ (callAll fn latest order).1 := by
  induction order with
  | nil => cases hk
  | cons k' ks ih =>
    rw [callAll] at h ⊢
    split at h
    · rename_i w hw
      split at h
      · cases h
      · obtain rfl | hk := List.mem_cons.mp hk
        · obtain rfl := Option.some.inj (Option.some.inj (hw.symm.trans hv))
          exact List.mem_cons_self ..
        · exact List.mem_cons_of_mem _ (ih h hk)
    · rename_i hnot
      obtain rfl | hk := List.mem_cons.mp hk
      · exact absurd hv (hnot v)
      · exact ih h hk

lemma callAll_ok (h : ∀ k v, fn k v = none) : (callAll fn latest order).2 = none := by
  induction order with
  | nil => rfl
  | cons k ks ih =>
    rw [callAll]
    split
    · rw [h]
      exact ih
    · exact ih

end Calls

/-- The store is in order, and holds the last values. -/
structure Inv (a : Adapter) (last : Bytes → Option Bytes) : Prop where
  sorted : Assoc.Sorted a.store
  last : last = current a.store

section Run
variable {lim : Limits} {a : Adapter} {last : Bytes → Option Bytes}

lemma Inv.insert (h : Inv a last) (version next : UInt64) (k v : Bytes) :
    Inv ⟨next,(heapInsert lim version (pairRow k v) a.store).2⟩
      (if (heapInsert lim version (pairRow k v) a.store).1.isOk then
        Function.update last k (if v = [] then none else some v) else last) := by
  rw [heapInsert_pair]
  by_cases haccept : lim.accepts k (be64 version++v) = true
  · rw [if_pos haccept,h.last]
    exact ⟨Assoc.sorted_put k _ h.sorted,(funext fun j => current_put version k v j a.store).symm⟩
  · rw [if_neg haccept]
    exact ⟨h.sorted,h.last⟩

lemma Inv.step (h : Inv a last) (op : Op) : Inv (step lim a op) (record lim a last op) := by
  cases op with
  | newAdapter => exact ⟨h.sorted,h.last⟩
  | put k v => exact h.insert ..
  | delete k => exact h.insert (a.nextTxID+1) (a.nextTxID+1) k []

lemma inv_run (lim : Limits) (ops : List Op) : Inv (run lim ops).1 (run lim ops).2 := by
  have hall (s : Adapter × (Bytes → Option Bytes)) (hs : Inv s.1 s.2) :
      Inv (ops.foldl (fun s op => (SystemAdapter.step lim s.1 op,record lim s.1 s.2 op)) s).1
        (ops.foldl (fun s op => (SystemAdapter.step lim s.1 op,record lim s.1 s.2 op)) s).2 := by
    induction ops generalizing s with
    | nil => exact hs
    | cons op ops ih => exact ih _ (hs.step op)
  exact hall _ ⟨.nil,rfl⟩

end Run

end Plomvix.SQL.SystemAdapter
