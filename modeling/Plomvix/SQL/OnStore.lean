import Plomvix.KV.OrderedMap
import Plomvix.SQL.Isolation
import Plomvix.SQL.Vacuum

/-! The tables over the B+ tree. A call scans the rows of its key and sets one entry, and a vacuum
deletes one entry after another. As long as no row is longer than a slot of a leaf, the tables answer
as they do over a list of entries; a longer row would not survive a write next to it. -/
namespace Plomvix.SQL
open Lib

/-- A call to the store; whatever goes wrong is an error of the store. -/
def onStore {α : Type} (x : KV.Cmd α) (s : KV.Store) : Except Err α × KV.Store :=
  ((x s).1.mapError fun _ => .store,(x s).2)

/-- The rows of a key as the store lists them; without a code for the key nothing is read. -/
def readKey (schema : Schema) (pkValues : List Val) (s : KV.Store) : Except Err Entries × KV.Store :=
  match encodeRowVersionPrefix schema pkValues with
  | .error _ => (.ok [],s)
  | .ok (first,last) => onStore (KV.scan first last) s

def writeEntry (entry : Except Err (Bytes × Bytes)) (s : KV.Store) :
    Except Err (Option (List Val)) × KV.Store :=
  match entry with
  | .error e => (.error e,s)
  | .ok (k,v) => ((onStore (KV.set k v) s).1.map fun _ => none,(onStore (KV.set k v) s).2)

namespace TableCall

/-- A call on a table in the store. -/
def stepOn (schema : Schema) (c : TableCall) (s : KV.Store) : Except Err (Option (List Val)) × KV.Store :=
  match readKey schema (c.keyOf schema) s with
  | (.error e,s) => (.error e,s)
  | (.ok rows,s) =>
    match c with
    | insert tx values => writeEntry (insertEntry schema rows tx values) s
    | update tx pkValues newValues => writeEntry (updateEntry schema rows tx pkValues newValues) s
    | delete tx pkValues => writeEntry (deleteEntry schema rows tx pkValues) s
    | get tx pkValues => ((SQL.get schema rows tx pkValues).map some,s)

/-- The row that the call would write. -/
def row (schema : Schema) : TableCall → Except Err Bytes
  | insert _ values => encodeEnterpriseValue schema (some values) flagNormal
  | update _ _ newValues => encodeEnterpriseValue schema (some newValues) flagNormal
  | delete _ _ => encodeEnterpriseValue schema none flagTombstone
  | get _ _ => .ok []

/-- The row fits a slot of a leaf, and its key is not longer than the store allows. -/
def Short (schema : Schema) (c : TableCall) : Prop :=
  ((c.row schema).toOption.getD []).length ≤ KV.maxValSize ∧
    ((encodeRowKeyFromPK schema (c.keyOf schema) c.tx).toOption.getD []).length ≤ KV.maxKeySize

instance (schema : Schema) (c : TableCall) : Decidable (c.Short schema) := by
  unfold Short
  infer_instance

/-- The call writes a short row, and there are pages left. -/
def Admitted (schema : Schema) (c : TableCall) (s : KV.Store) : Prop := c.Short schema ∧ s.Roomy

end TableCall

/-- What the store contains. -/
def listing (s : KV.Store) : Entries := (KV.scan [] [] s).1.toOption.getD []

/-- What a reader gets of a row. -/
def getOn (schema : Schema) (tx : UInt64) (pkValues : List Val) (s : KV.Store) :
    Except Err (Option (List Val)) :=
  ((TableCall.get tx pkValues).stepOn schema s).1

/-- The store after the first `n` deletions of a vacuum. -/
def vacuumOn (olderThan : UInt64) (order : List (Bytes × List RowEntry)) (n : ℕ) (s : KV.Store) :
    KV.Store :=
  ((vacuumed olderThan order).take n).foldl (fun s e => (onStore (KV.delete e.keyBytes) s).2) s

/-- The store has these entries, all of them short. -/
def Backs (s : KV.Store) (st : Entries) : Prop :=
  Assoc.Sorted st ∧ KV.Represents s fun k => Assoc.lookup k st

section Refines
variable {schema : Schema} {s : KV.Store} {st : Entries} {tx : UInt64} {pkValues : List Val}

lemma Backs.scan (h : Backs s st) (first last : Bytes) :
    ∃ n, KV.scan first last s = (.ok (storeScan st first last),s.tick .read n) ∧
      Backs (s.tick .read n) st := by
  obtain ⟨es,n,hrun,hsorted,hes,hs'⟩ := KV.represents_scan h.2 first last
  have hlist : es = storeScan st first last := by
    refine hsorted.ext (h.1.sublist (List.filter_sublist.map _)) fun ⟨k,v⟩ => ?_
    rw [hes,storeScan,List.mem_filter,decide_eq_true_eq,Assoc.lookup_eq_some h.1]
  exact ⟨n,hlist ▸ hrun,h.1,hs'⟩

lemma Backs.set {k v : Bytes} (h : Backs s st) (hr : s.Roomy) (hk : k.length ≤ KV.maxKeySize)
    (hv : v.length ≤ KV.maxValSize) : ∃ s', KV.set k v s = (.ok (),s') ∧ Backs s' (Assoc.put k v st) := by
  obtain ⟨s',hrun,hs'⟩ := KV.represents_set h.2 hr hk hv
  refine ⟨s',hrun,Assoc.sorted_put k v h.1,?_⟩
  convert hs' using 1
  funext j
  rw [Assoc.lookup_put,Function.update_apply]
  congr

lemma Backs.delete (h : Backs s st) (k : Bytes) :
    ∃ s', KV.delete k s = (.ok (),s') ∧ Backs s' (Assoc.erase k st) := by
  obtain ⟨s',hrun,hs'⟩ := KV.represents_delete h.2 k
  refine ⟨s',hrun,Assoc.sorted_erase k h.1,?_⟩
  convert hs' using 1
  funext j
  rw [Assoc.lookup_erase,Function.update_apply]
  congr

lemma Backs.listing_eq (h : Backs s st) : listing s = st := by
  obtain ⟨s',hrun,-⟩ := h.scan [] []
  rw [listing,hrun]
  exact List.filter_eq_self.mpr fun e _ => by simp [KV.InRange]

lemma storeScan_storeScan (st : Entries) (first last : Bytes) :
    storeScan (storeScan st first last) first last = storeScan st first last := by
  simp [storeScan,List.filter_filter]

/-- The rows that are read decide the call as the whole store does. -/
lemma Backs.readKey (h : Backs s st) (schema : Schema) (pkValues : List Val) :
    ∃ rows s', SQL.readKey schema pkValues s = (.ok rows,s') ∧ s'.pages = s.pages ∧ Backs s' st ∧ ∀ tx,
      validateMonotonicTx schema rows pkValues tx = validateMonotonicTx schema st pkValues tx ∧
      findVisibleRow schema rows pkValues tx = findVisibleRow schema st pkValues tx := by
  rw [SQL.readKey]
  cases hbounds : encodeRowVersionPrefix schema pkValues with
  | error e =>
    exact ⟨[],s,rfl,rfl,h,fun tx => by
      simp only [validateMonotonicTx,findVisibleRow,hbounds,and_self]⟩
  | ok bounds =>
    obtain ⟨n,hrun,hs'⟩ := h.scan bounds.1 bounds.2
    refine ⟨storeScan st bounds.1 bounds.2,s.tick .read n,?_,rfl,hs',fun tx => ?_⟩
    · simp only [onStore,hrun]
      rfl
    · simp only [validateMonotonicTx,findVisibleRow,hbounds,storeScan_storeScan,and_self]

lemma Backs.writeEntry (h : Backs s st) (hr : s.Roomy) {rows : Entries}
    (entry : Entries → Except Err (Bytes × Bytes)) (hentry : entry rows = entry st)
    (hshort : ∀ k v, entry st = .ok (k,v) → k.length ≤ KV.maxKeySize ∧ v.length ≤ KV.maxValSize) :
    (SQL.writeEntry (entry rows) s).1 = (setEntry btreeLimits entry st).1.map (fun _ => none) ∧
      Backs (SQL.writeEntry (entry rows) s).2 (setEntry btreeLimits entry st).2 := by
  rw [hentry]
  cases hkv : entry st with
  | error e =>
    rw [setEntry,hkv]
    exact ⟨rfl,h⟩
  | ok kv =>
    obtain ⟨hk,hv⟩ := hshort kv.1 kv.2 hkv
    have haccepts : btreeLimits.accepts kv.1 kv.2 = true :=
      decide_eq_true ⟨hk,hv.trans (by decide)⟩
    obtain ⟨s',hrun,hs'⟩ := h.set hr hk hv
    simp only [setEntry,hkv,SQL.writeEntry,storeSet,haccepts,if_true,onStore,hrun]
    exact ⟨rfl,hs'⟩

lemma length_of_toOption {x : Except Err Bytes} {b : Bytes} {n : ℕ} (hx : x = .ok b)
    (h : (x.toOption.getD []).length ≤ n) : b.length ≤ n := by
  rwa [hx] at h

/-- A call with a short row does over the tree what it does over the entries. -/
theorem Backs.step (h : Backs s st) (c : TableCall) (hc : c.Admitted schema s) :
    (c.stepOn schema s).1 = (c.step schema btreeLimits st).1 ∧
      Backs (c.stepOn schema s).2 (c.step schema btreeLimits st).2 := by
  obtain ⟨rows,s',hread,hpages,hs',hrows⟩ := h.readKey schema (c.keyOf schema)
  have hr' : s'.Roomy := by
    rw [KV.Store.Roomy,hpages]
    exact hc.2
  rw [TableCall.stepOn,hread]
  cases c <;> dsimp only [TableCall.keyOf] at hrows
  case insert tx values =>
    refine hs'.writeEntry hr' (fun rows => insertEntry schema rows tx values) ?_ fun k v hkv => ?_
    · simp only [insertEntry]
      rw [(hrows tx).1,(hrows tx).2]
    · obtain ⟨-,-,-,hv,hk⟩ := insertEntry_ok_iff.mp hkv
      exact ⟨length_of_toOption hk hc.1.2,length_of_toOption hv hc.1.1⟩
  case update tx pkValues newValues =>
    refine hs'.writeEntry hr' (fun rows =>
      updateEntry schema rows tx pkValues newValues) ?_ fun k v hkv => ?_
    · simp only [updateEntry]
      rw [(hrows tx).1,(hrows tx).2]
    · obtain ⟨-,-,-,-,hv,hk⟩ := updateEntry_ok_iff.mp hkv
      exact ⟨length_of_toOption hk hc.1.2,length_of_toOption hv hc.1.1⟩
  case delete tx pkValues =>
    refine hs'.writeEntry hr' (fun rows => deleteEntry schema rows tx pkValues) ?_ fun k v hkv => ?_
    · simp only [deleteEntry]
      rw [(hrows tx).1,(hrows tx).2]
    · obtain ⟨-,-,hv,hk⟩ := deleteEntry_ok_iff.mp hkv
      exact ⟨length_of_toOption hk hc.1.2,length_of_toOption hv hc.1.1⟩
  case get tx pkValues => exact ⟨congrArg (fun r => (Except.map Prod.fst r).map some) (hrows tx).2,hs'⟩

lemma Backs.getOn (h : Backs s st) (tx : UInt64) (pkValues : List Val) :
    getOn schema tx pkValues s = (SQL.get schema st tx pkValues).map some := by
  obtain ⟨rows,s',hread,-,-,hrows⟩ := h.readKey schema pkValues
  rw [SQL.getOn,TableCall.stepOn,TableCall.keyOf,hread]
  exact congrArg (fun r => (Except.map Prod.fst r).map some) (hrows tx).2

lemma Backs.vacuum (h : Backs s st) (o : UInt64) (order : List (Bytes × List RowEntry)) (n : ℕ) :
    Backs (vacuumOn o order n s) (SQL.vacuum o order n st) := by
  rw [vacuumOn,SQL.vacuum]
  generalize (vacuumed o order).take n = es
  induction es generalizing s st with
  | nil => exact h
  | cons e es ih =>
    obtain ⟨s',hrun,hs'⟩ := h.delete e.keyBytes
    refine ih ?_
    simp only [onStore,hrun]
    exact hs'

lemma TableCall.run_backs {calls : List TableCall} (hs : Backs s st)
    (h : Machine.Allowed (TableCall.stepOn schema) (TableCall.Admitted schema) calls s) :
    (Machine.run (TableCall.stepOn schema) calls s).1 =
      (Machine.run (TableCall.step schema btreeLimits) calls st).1 ∧
      Backs (Machine.run (TableCall.stepOn schema) calls s).2
        (Machine.run (TableCall.step schema btreeLimits) calls st).2 := by
  refine Machine.run_simulates (E := Backs) ?_ hs h
  exact fun hs hok => hs.step _ hok

end Refines

/-- Every history of a table over the tree with short rows; a vacuum may go through the groups in any
order and stop anywhere. -/
inductive ReachedOn (t : Table) : KV.Store → Prop
  | start {s : KV.Store} {st : Entries} (hs : Backs s st) (h : Vacant t.toSchema st) : ReachedOn t s
  | call {s : KV.Store} (h : ReachedOn t s) (c : TableCall) (hc : c.Admitted t.toSchema s) :
      ReachedOn t (c.stepOn t.toSchema s).2
  | vacuum {s : KV.Store} (h : ReachedOn t s) (olderThan : UInt64) {order : List (Bytes × List RowEntry)}
      (horder : order.Perm (rowGroups t.toSchema (listing s))) (n : ℕ) :
        ReachedOn t (vacuumOn olderThan order n s)

section Vacuum
variable {t : Table} {s : KV.Store} {o tx : UInt64}

theorem ReachedOn.reached (h : ReachedOn t s) : Reached t (listing s) ∧ Backs s (listing s) := by
  induction h with
  | start hs h => exact ⟨.start (hs.listing_eq ▸ h),hs.listing_eq ▸ hs⟩
  | call h c hc ih =>
    have hstep := (ih.2.step c hc).2
    rw [hstep.listing_eq]
    exact ⟨ih.1.call btreeLimits c,hstep⟩
  | vacuum h o horder n ih =>
    have hv := Backs.vacuum ih.2 o ‹_› n
    rw [hv.listing_eq]
    exact ⟨ih.1.vacuum o horder n,hv⟩

lemma map_some_inj {x y : Except Err (List Val)} : x.map some = y.map some ↔ x = y := by
  cases x <;> cases y <;> simp [Except.map]

/-- What readers after `olderThan` see changes at no point exactly when no key ends in an old
tombstone. -/
theorem vacuum_keeps_readers_iff (hb : .bytes ∉ t.pkKinds) (h : ReachedOn t s) (htx : o < tx) :
    (∀ order, order.Perm (rowGroups t.toSchema (listing s)) → ∀ n pkValues, NulFree pkValues →
      getOn t.toSchema tx pkValues (vacuumOn o order n s) = getOn t.toSchema tx pkValues s) ↔
      ∀ pk, ¬EndsInOldTombstone t.toSchema (listing s) o pk := by
  obtain ⟨hreached,hs⟩ := h.reached
  rw [← keeps_readers_iff hb hreached htx]
  refine forall₂_congr fun order _ => forall₃_congr fun n pkValues _ => ?_
  rw [(hs.vacuum o order n).getOn,hs.getOn,map_some_inj]

lemma backs_fresh : Backs KV.freshStore [] := ⟨List.Pairwise.nil,KV.represents_fresh⟩

/-- A user that was inserted, and deleted again. -/
def retiredOn : KV.Store :=
  ((TableCall.delete 2 [.uint64 7]).stepOn users.toSchema
    ((TableCall.insert 1 [.uint64 7,.string [65]]).stepOn users.toSchema KV.freshStore).2).2

lemma retiredOn_reached : ReachedOn users retiredOn := by
  refine .call (.call (.start backs_fresh (vacant_nil _)) _ ⟨by decide +kernel,KV.roomy_fresh⟩) _
    ⟨by decide +kernel,?_⟩
  unfold KV.Store.Roomy
  decide +kernel

lemma retiredOn_tombstones : ∀ e ∈ listing retiredOn, isTombstone e.2 = true →
    (decodeTableRowKey e.1 users.toSchema.pkKinds).toOption.map (·.2.2) = some 2 := by
  decide +kernel

/-- A vacuum up to the version before the tombstone. -/
theorem vacuum_keeps_readers_retired :
    (∀ pk, ¬EndsInOldTombstone users.toSchema (listing retiredOn) 1 pk) ∧
      ∀ order, order.Perm (rowGroups users.toSchema (listing retiredOn)) → ∀ n pkValues, NulFree pkValues →
        getOn users.toSchema 3 pkValues (vacuumOn 1 order n retiredOn) =
          getOn users.toSchema 3 pkValues retiredOn := by
  have hnone : ∀ pk, ¬EndsInOldTombstone users.toSchema (listing retiredOn) 1 pk := by
    rintro pk ⟨⟨v,d⟩,hx,htomb,hle,-⟩
    obtain ⟨hread,hm⟩ := mem_versionsOf.mp hx
    have hver := retiredOn_tombstones _ hm htomb
    rw [hread v] at hver
    obtain rfl : v = 2 := Option.some.inj hver
    exact absurd (show (2 : UInt64) ≤ 1 from hle) (by decide)
  exact ⟨hnone,(vacuum_keeps_readers_iff (by decide) retiredOn_reached (by decide)).mpr hnone⟩

/-- After the first of the two deletions the row is back. -/
theorem vacuum_revives_row :
    ReachedOn users retiredOn ∧ getOn users.toSchema 3 [.uint64 7] retiredOn = .error .keyNotFound ∧
      getOn users.toSchema 3 [.uint64 7]
        (vacuumOn 2 (rowGroups users.toSchema (listing retiredOn)) 1 retiredOn) =
        .ok (some [.uint64 7,.string [65]]) :=
  ⟨retiredOn_reached,by decide +kernel,by decide +kernel⟩

/-- Nobody who reads after `olderThan` sees that a vacuum has gone on to the end, also of a key that
ends in an old tombstone. -/
theorem vacuum_complete_keeps_readers {order : List (Bytes × List RowEntry)} {n : ℕ} {pkValues : List Val}
    (hb : .bytes ∉ t.pkKinds) (h : ReachedOn t s) (horder : order.Perm (rowGroups t.toSchema (listing s)))
    (hn : (vacuumed o order).length ≤ n) (htx : o < tx) (hz : NulFree pkValues) :
    getOn t.toSchema tx pkValues (vacuumOn o order n s) = getOn t.toSchema tx pkValues s := by
  obtain ⟨hreached,hs⟩ := h.reached
  rw [(hs.vacuum o order n).getOn,hs.getOn,complete_keeps_readers hb hreached horder hn htx hz]

theorem vacuum_complete_keeps_readers_retired :
    getOn users.toSchema 3 [.uint64 7]
      (vacuumOn 2 (rowGroups users.toSchema (listing retiredOn)) 2 retiredOn) =
      getOn users.toSchema 3 [.uint64 7] retiredOn :=
  vacuum_complete_keeps_readers (by decide) retiredOn_reached (List.Perm.refl _) (by decide +kernel)
    (by decide)
    (by intro s hs; simp at hs)

end Vacuum

namespace Tables
variable {s s' : KV.Store} {st : Entries} {calls : List (UInt64 × TableCall)} {id r : UInt64}

/-- A call on one of the tables in the store. -/
def stepOn (tables : Tables) (x : UInt64 × TableCall) :
    KV.Store → Except Err (Option (List Val)) × KV.Store :=
  x.2.stepOn (tables.table x.1).toSchema

/-- The call keeps to the limits of the store. -/
def Admitted (tables : Tables) (x : UInt64 × TableCall) : KV.Store → Prop :=
  x.2.Admitted (tables.table x.1).toSchema

lemma run_backs (tables : Tables) (hs : Backs s st)
    (h : Machine.Allowed tables.stepOn tables.Admitted calls s) :
    (Machine.run tables.stepOn calls s).1 = (Machine.run (tables.step btreeLimits) calls st).1 ∧
      Backs (Machine.run tables.stepOn calls s).2 (Machine.run (tables.step btreeLimits) calls st).2 := by
  refine Machine.run_simulates (E := Backs) ?_ hs h
  exact fun hs hok => hs.step _ hok

/-- However calls on several tables follow each other, those on one of them return what they would
return without the others. -/
theorem tables_isolated (tables : Tables) (hs : Backs s st) (calls : List (UInt64 × TableCall))
    (id : UInt64)
    (h : Machine.Allowed tables.stepOn tables.Admitted calls s)
    (hown : Machine.Allowed (TableCall.stepOn (tables.table id).toSchema)
      (TableCall.Admitted (tables.table id).toSchema) (calls.filterMap (callOn id)) s) :
    ((calls.zip (Machine.run tables.stepOn calls s).1).filterMap fun x =>
      (callOn id x.1).map fun _ => x.2) =
      (Machine.run (TableCall.stepOn (tables.table id).toSchema) (calls.filterMap (callOn id)) s).1 := by
  rw [(tables.run_backs hs h).1,(TableCall.run_backs hs hown).1]
  exact tables.isolated hs.1 calls id

/-- What a reader at `r` gets of a table stays the same as long as its later calls have later
versions; so does what it scans. -/
theorem snapshot_reads_repeat (tables : Tables) (hs : Backs s st)
    (h : Machine.Allowed tables.stepOn tables.Admitted calls s)
    (hlater : ∀ x ∈ calls, x.1 = id → r < x.2.tx) :
    let s' := (Machine.run tables.stepOn calls s).2
    (∀ pkValues, getOn (tables.table id).toSchema r pkValues s' =
      getOn (tables.table id).toSchema r pkValues s) ∧
      newestRows (tables.table id).toSchema (listing s') r =
        newestRows (tables.table id).toSchema (listing s) r := by
  have hs' := (tables.run_backs hs h).2
  refine ⟨fun pkValues => ?_,?_⟩
  · rw [hs'.getOn,hs.getOn,(tables.reads_repeat hs.1 hlater).1]
  · rw [hs'.listing_eq,hs.listing_eq,(tables.reads_repeat hs.1 hlater).2]

theorem tables_isolated_two :
    let calls :=
  [(1,.insert 1 [.uint64 7,.string []]),(2,.insert 1 [.uint64 7,.null]),(1,.get 1 [.uint64 7])]
    ((calls.zip (Machine.run allUsers.stepOn calls KV.freshStore).1).filterMap fun x =>
        (callOn 1 x.1).map fun _ => x.2) =
      (Machine.run (TableCall.stepOn (allUsers.table 1).toSchema) (calls.filterMap (callOn 1))
        KV.freshStore).1 := by
  refine tables_isolated allUsers backs_fresh _ 1 ?_ ?_
  · refine ⟨⟨by decide +kernel,KV.roomy_fresh⟩,⟨by decide +kernel,?_⟩,⟨by decide +kernel,?_⟩,trivial⟩ <;>
      · unfold KV.Store.Roomy
        decide +kernel
  · refine ⟨⟨by decide +kernel,KV.roomy_fresh⟩,⟨by decide +kernel,?_⟩,trivial⟩
    unfold KV.Store.Roomy
    decide +kernel

theorem snapshot_reads_repeat_two :
    let s :=
  ((TableCall.insert 3 [.uint64 7,.string [65]]).stepOn (allUsers.table 1).toSchema KV.freshStore).2
    let s' := (Machine.run allUsers.stepOn [(1,.update 5 [.uint64 7] [.uint64 7,.null]),
      (2,.insert 1 [.uint64 7,.null])] s).2
    (∀ pkValues, getOn (allUsers.table 1).toSchema 4 pkValues s' =
      getOn (allUsers.table 1).toSchema 4 pkValues s) ∧
      newestRows (allUsers.table 1).toSchema (listing s') 4 =
        newestRows (allUsers.table 1).toSchema (listing s) 4 := by
  refine snapshot_reads_repeat allUsers (backs_fresh.step _ ⟨by decide +kernel,KV.roomy_fresh⟩).2 ?_
    (by simp [TableCall.tx])
  refine ⟨⟨by decide +kernel,?_⟩,⟨by decide +kernel,?_⟩,trivial⟩ <;>
    · unfold KV.Store.Roomy
      decide +kernel

end Tables

end Plomvix.SQL
