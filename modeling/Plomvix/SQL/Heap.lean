import Plomvix.KV.Read
import Plomvix.Lib.Versions
import Plomvix.SQL.Row

/-! The tables of the heap over an ordered map: every write adds a version of the row under its
own key, and a reader looks for the latest version up to its transaction. -/
namespace Plomvix.SQL
open Lib

abbrev Entries := List (Bytes × Bytes)

/-- What the store takes as an entry. Every store limits the size of a value. -/
structure Limits where
  accepts : Bytes → Bytes → Bool
  small : ∀ {k v : Bytes}, accepts k v = true → v.length < 2^32

def btreeLimits : Limits where
  accepts k v := decide (k.length ≤ KV.maxKeySize ∧ v.length ≤ KV.maxValSizeEnterprise)
  small h := (of_decide_eq_true h).2.trans_lt (by decide)

def storeScan (st : Entries) (first last : Bytes) : Entries :=
  st.filter fun e => decide (KV.InRange first last e.1)

def storeSet (lim : Limits) (k v : Bytes) (st : Entries) : Except Err Unit × Entries :=
  if lim.accepts k v then (.ok (),Assoc.put k v st) else (.error .store,st)

def Schema.pkKinds (schema : Schema) : List Kind :=
  schema.pkIndices.map fun idx => schema.kinds.getD idx.toNat .uint64

def keyValues : List Kind → List Val → Except Err (List KeyValue)
  | kind::kinds,v::vs =>
    match anyToKeyValue kind v with
    | .error e => .error e
    | .ok kv =>
      match keyValues kinds vs with
      | .error e => .error e
      | .ok kvs => .ok (kv::kvs)
  | _,_ => .ok []

def encodeRowKeyFromPK (schema : Schema) (pkValues : List Val) (version : UInt64) : Except Err Bytes :=
  if pkValues.length≠schema.pkIndices.length then
    .error (.wrap "%w: pk value count mismatch" .columnCountMismatch)
  else match keyValues schema.pkKinds pkValues with
    | .error e => .error e
    | .ok kvs => encodeTableRowKey schema.tableID kvs version

/-- The bounds of a scan over what begins with `p`; an end without bytes is no bound. -/
def scanBounds (p : Bytes) : Bytes × Bytes := (p,(prefixEnd p).getD [])

def encodeRowVersionPrefix (schema : Schema) (pkValues : List Val) : Except Err (Bytes × Bytes) :=
  if pkValues.length≠schema.pkIndices.length then .error .columnCountMismatch
  else match keyValues schema.pkKinds pkValues with
    | .error e => .error e
    | .ok kvs =>
      match encodeTableRowPrefix schema.tableID kvs with
      | .error e => .error e
      | .ok p => .ok (scanBounds p)

/-- The versions in the keys that can be read, each with its value. -/
def rowVersions (schema : Schema) (entries : Entries) : List (UInt64 × Bytes) :=
  entries.filterMap fun e =>
    match decodeTableRowKey e.1 schema.pkKinds with
    | .error _ => none
    | .ok (_,_,version) => some (version,e.2)

def validateMonotonicTx (schema : Schema) (st : Entries) (pkValues : List Val) (txID : UInt64) :
    Except Err Unit :=
  if txID = 0 then .error .invalidTx
  else match encodeRowVersionPrefix schema pkValues with
    | .error e => .error e
    | .ok (first,last) =>
      if ∃ x ∈ rowVersions schema (storeScan st first last), txID ≤ x.1 then .error .txConflict else .ok ()

def findVisibleRow (schema : Schema) (st : Entries) (pkValues : List Val) (txID : UInt64) :
    Except Err (List Val × UInt64) :=
  match encodeRowVersionPrefix schema pkValues with
  | .error e => .error e
  | .ok (first,last) =>
    match ((rowVersions schema (storeScan st first last)).filter (·.1 ≤ txID)).insertionSort fun a
      b => b.1 ≤ a.1 with
    | [] => .error .keyNotFound
    | latest::_ =>
      match decodeEnterpriseValue schema latest.2 with
      | .error e => .error e
      | .ok (vals,isTombstone) => if isTombstone then .error .keyNotFound else .ok (vals,latest.1)

def valueEqual : Val → Val → Bool
  | .uint64 a,.uint64 b => a = b
  | .int64 a,.int64 b => a = b
  | .string a,.string b => a = b
  | .bytes a,.bytes b => a = b
  | _,_ => false

def comparePK (schema : Schema) (pkValues newValues : List Val) : Bool :=
  (schema.pkIndices.zip pkValues).all fun x =>
    decide (x.1 < newValues.length) && valueEqual x.2 (newValues.getD x.1.toNat .null)

def pkOf (schema : Schema) (values : List Val) : List Val :=
  schema.pkIndices.map fun idx => values.getD idx.toNat .null

def check (p : Prop) [Decidable p] (e : Err) : Except Err Unit := if p then .ok () else .error e

/-- What `Insert` checks, up to the entry that it then sets. -/
def insertEntry (schema : Schema) (st : Entries) (tx : UInt64) (values : List Val) :
    Except Err (Bytes × Bytes) := do
  check (values.length = schema.columns.length) .columnCountMismatch
  validateMonotonicTx schema st (pkOf schema values) tx
  check ((findVisibleRow schema st (pkOf schema values) tx).isOk = false) .duplicateKey
  let rowValue ← encodeEnterpriseValue schema (some values) flagNormal
  let rowKey ← encodeRowKeyFromPK schema (pkOf schema values) tx
  return (rowKey,rowValue)

def updateEntry (schema : Schema) (st : Entries) (tx : UInt64) (pkValues newValues : List Val) :
    Except Err (Bytes × Bytes) := do
  check (newValues.length = schema.columns.length) .columnCountMismatch
  validateMonotonicTx schema st pkValues tx
  check ((findVisibleRow schema st pkValues tx).isOk = true) .keyNotFound
  check (comparePK schema pkValues newValues = true) .primaryKeyUpdate
  let rowValue ← encodeEnterpriseValue schema (some newValues) flagNormal
  let rowKey ← encodeRowKeyFromPK schema pkValues tx
  return (rowKey,rowValue)

def deleteEntry (schema : Schema) (st : Entries) (tx : UInt64) (pkValues : List Val) :
    Except Err (Bytes × Bytes) := do
  validateMonotonicTx schema st pkValues tx
  check ((findVisibleRow schema st pkValues tx).isOk = true) .keyNotFound
  let tombstoneValue ← encodeEnterpriseValue schema none flagTombstone
  let rowKey ← encodeRowKeyFromPK schema pkValues tx
  return (rowKey,tombstoneValue)

def setEntry (lim : Limits) (entry : Entries → Except Err (Bytes × Bytes)) (st : Entries) :
    Except Err Unit × Entries :=
  match entry st with
  | .error e => (.error e,st)
  | .ok (k,v) => storeSet lim k v st

def insert (schema : Schema) (lim : Limits) (tx : UInt64) (values : List Val) :
    Entries → Except Err Unit × Entries :=
  setEntry lim fun st => insertEntry schema st tx values

def update (schema : Schema) (lim : Limits) (tx : UInt64) (pkValues newValues : List Val) :
    Entries → Except Err Unit × Entries :=
  setEntry lim fun st => updateEntry schema st tx pkValues newValues

def delete (schema : Schema) (lim : Limits) (tx : UInt64) (pkValues : List Val) :
    Entries → Except Err Unit × Entries :=
  setEntry lim fun st => deleteEntry schema st tx pkValues

def get (schema : Schema) (st : Entries) (tx : UInt64) (pkValues : List Val) : Except Err (List Val) :=
  (findVisibleRow schema st pkValues tx).map Prod.fst

def extractPKPrefix (fullKey : Bytes) : Bytes :=
  if fullKey.length ≤ 8 then fullKey else fullKey.take (fullKey.length-8)

/-- A row that a scan over the table can read. -/
structure RowEntry where
  keyBytes : Bytes
  version : UInt64
  data : Bytes
  deriving DecidableEq

def RowEntry.pkBytes (e : RowEntry) : Bytes := extractPKPrefix e.keyBytes

def tableRows (schema : Schema) (st : Entries) : List RowEntry :=
  (storeScan st (scanBounds (tablePrefix schema.tableID)).1
    (scanBounds (tablePrefix schema.tableID)).2).filterMap fun e =>
    match decodeTableRowKey e.1 schema.pkKinds with
    | .error _ => none
    | .ok (_,_,version) => some ⟨e.1,version,e.2⟩

def keepNewest (groups : List (Bytes × RowEntry)) (e : RowEntry) : List (Bytes × RowEntry) :=
  match Assoc.lookup e.pkBytes groups with
  | none => Assoc.put e.pkBytes e groups
  | some existing => if existing.version < e.version then Assoc.put e.pkBytes e groups else groups

def newestRows (schema : Schema) (st : Entries) (tx : UInt64) : List (Bytes × RowEntry) :=
  ((tableRows schema st).filter (·.version ≤ tx)).foldl keepNewest []

def isTombstone (data : Bytes) : Bool := data.head? = some flagTombstone

/-- A row a snapshot sees. -/
structure VisibleRow where
  pkBytes : Bytes
  values : List Val
  deriving DecidableEq

def visibleRow (schema : Schema) (g : Bytes × RowEntry) : Option VisibleRow :=
  if isTombstone g.2.data then none
  else match decodeEnterpriseValue schema g.2.data with
    | .error _ => none
    | .ok (vals,_) => some ⟨g.2.pkBytes,vals⟩

/-- The iterator over the rows of a scan. -/
structure EnterpriseRows where
  rows : List VisibleRow
  idx : ℕ
  curVals : Option (List Val)
  deriving DecidableEq

/-- `order` is the map of the groups in the order in which its iteration happens to go. -/
def scan (schema : Schema) (order : List (Bytes × RowEntry)) : EnterpriseRows where
  rows := (order.filterMap (visibleRow schema)).insertionSort fun a b => a.pkBytes ≤ b.pkBytes
  idx := 0
  curVals := none

def EnterpriseRows.next (r : EnterpriseRows) : Bool × EnterpriseRows :=
  match r.rows[r.idx+1]? with
  | none => (false,{ r with idx := r.idx+1 })
  | some row => (true,{ r with idx := r.idx+1, curVals := some row.values })

def EnterpriseRows.values (r : EnterpriseRows) : Option (List Val) := r.curVals

/-- `for rows.Next() { … rows.Values() … }`, for at most `fuel` rounds. -/
def EnterpriseRows.collect : ℕ → EnterpriseRows → List (Option (List Val))
  | 0,_ => []
  | fuel+1,r => if r.next.1 then r.next.2.values::collect fuel r.next.2 else []

/-- The map of the groups: the rows of the table by the bytes of their keys, each in the order of
the scan. -/
def rowGroups (schema : Schema) (st : Entries) : List (Bytes × List RowEntry) :=
  ((tableRows schema st).map RowEntry.pkBytes).dedup.map fun p =>
    (p,(tableRows schema st).filter (·.pkBytes = p))

/-- What `Vacuum` deletes from one group, in its order. -/
def vacuumGroup (olderThan : UInt64) (group : List RowEntry) : List RowEntry :=
  let versions := group.insertionSort fun a b => b.version ≤ a.version
  match versions.find? (·.version ≤ olderThan) with
  | none => []
  | some highestOld =>
    let isTomb := isTombstone highestOld.data
    let hasNewer := versions.any (olderThan < ·.version)
    versions.filter fun ve => decide (ve.version ≤ olderThan) &&
      (isTomb && !hasNewer || !isTomb && decide (ve.version < highestOld.version))

/-- What it deletes from all, in the order in which the iteration over the groups happens to go. -/
def vacuumed (olderThan : UInt64) (order : List (Bytes × List RowEntry)) : List RowEntry :=
  order.flatMap fun g => vacuumGroup olderThan g.2

/-- The store after the first `n` deletions. -/
def vacuum (olderThan : UInt64) (order : List (Bytes × List RowEntry)) (n : ℕ) (st : Entries) : Entries :=
  ((vacuumed olderThan order).take n).foldl (fun st e => Assoc.erase e.keyBytes st) st

end Plomvix.SQL
