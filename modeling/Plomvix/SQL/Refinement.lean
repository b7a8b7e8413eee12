import Plomvix.SQL.Mvcc

/-! Every run of the calls of a table has the results of the map of version chains. -/
namespace Plomvix.SQL
open Lib

def encodeRow (schema : Schema) : Option (List Val) → Except Err Bytes
  | some values => encodeEnterpriseValue schema (some values) flagNormal
  | none => encodeEnterpriseValue schema none flagTombstone

/-- A version is added to a key that has only older ones; `live` says whether a row must be there. -/
def Written (schema : Schema) (lim : Limits) (tx : UInt64) (pkValues : List Val)
    (r : Option (List Val)) (live : Bool)
    (m m' : Mvcc) : Prop :=
  ∃ pk, pkKey schema pkValues = .ok pk ∧ tx≠0 ∧ ∃ h : (m pk).Before tx, ((m pk).visible tx).isSome = live ∧
    (∃ data, encodeRow schema r = .ok data ∧ lim.accepts (rowKey schema pk tx) data = true) ∧
    m' = Function.update m pk ((m pk).push tx r h)

/-- A call on a table at a transaction. -/
inductive TableCall
  | insert (tx : UInt64) (values : List Val)
  | update (tx : UInt64) (pkValues newValues : List Val)
  | delete (tx : UInt64) (pkValues : List Val)
  | get (tx : UInt64) (pkValues : List Val)
  deriving DecidableEq

namespace TableCall

/-- Reads answer with a row. -/
def step (schema : Schema) (lim : Limits) (c : TableCall) (st : Entries) :
    Except Err (Option (List Val)) × Entries :=
  match c with
  | insert tx values =>
    ((SQL.insert schema lim tx values st).1.map fun _ =>
      none,(SQL.insert schema lim tx values st).2)
  | update tx pkValues newValues =>
    ((SQL.update schema lim tx pkValues newValues st).1.map fun _ => none,
      (SQL.update schema lim tx pkValues newValues st).2)
  | delete tx pkValues =>
    ((SQL.delete schema lim tx pkValues st).1.map fun _ =>
      none,(SQL.delete schema lim tx pkValues st).2)
  | get tx pkValues => ((SQL.get schema st tx pkValues).map some,st)

def Writes (schema : Schema) (lim : Limits) : TableCall → Mvcc → Mvcc → Prop
  | insert tx values,m,m' =>
    (schema.Fits values ∧ NulFree values) ∧
      Written schema lim tx (pkOf schema values) (some values) false m m'
  | update tx pkValues newValues,m,m' =>
    (schema.Fits newValues ∧ NulFree newValues ∧ pkOf schema newValues = pkValues) ∧
      Written schema lim tx pkValues (some newValues) true m m'
  | delete tx pkValues,m,m' => True ∧ Written schema lim tx pkValues none true m m'
  | get _ _,_,_ => False

def answer (schema : Schema) (tx : UInt64) (pkValues : List Val) (m : Mvcc) :
    Except Err (Option (List Val)) :=
  match pkKey schema pkValues with
  | .error e => .error e
  | .ok pk =>
    match (m pk).visible tx with
    | none => .error .keyNotFound
    | some row => .ok (some row)

/-- What a call may answer and leave behind. -/
def spec (schema : Schema) (lim : Limits) (c : TableCall) (m : Mvcc)
    (r : Except Err (Option (List Val))) (m' : Mvcc) : Prop :=
  match c with
  | get tx pkValues => r = answer schema tx pkValues m ∧ m' = m
  | c =>
    r = .ok none ∧ c.Writes schema lim m m' ∨ (∃ e, r = .error e) ∧
      (∀ m'', ¬c.Writes schema lim m m'') ∧ m' = m

/-- The primary key the call is about. -/
def keyOf (schema : Schema) : TableCall → List Val
  | insert _ values => pkOf schema values
  | update _ pkValues _ => pkValues
  | delete _ pkValues => pkValues
  | get _ pkValues => pkValues

end TableCall

section Step
variable {t : Table} {lim : Limits} {st : Entries} {m : Mvcc} {tx : UInt64} {pkValues values : List Val}
  {r : Option (List Val)}

lemma stores_of_encodeRow {d : Bytes} (h : encodeRow t.toSchema r = .ok d) (hlen : d.length < 2^32) :
    Stores t.toSchema r d := by
  cases r with
  | some values => exact decodeEnterpriseValue_encode h hlen
  | none =>
    obtain ⟨d',hd,hs⟩ := encodeEnterpriseValue_tombstone t.toSchema
    obtain rfl : d = d' := Except.ok.inj (h.symm.trans hd)
    exact hs

/-- The entry of a write, if all versions of its key are older and one of them is visible or none is. -/
def Enters (t : Table) (m : Mvcc) (tx : UInt64) (pkValues : List Val) (live : Bool)
    (r : Option (List Val)) (k d : Bytes) : Prop :=
  ∃ pk, pkKey t.toSchema pkValues = .ok pk ∧ tx≠0 ∧ (m pk).Before tx ∧ ((m pk).visible tx).isSome = live ∧
    encodeRow t.toSchema r = .ok d ∧ k = rowKey t.toSchema pk tx

variable (hb : .bytes ∉ t.pkKinds) (hm : Represents t.toSchema st m)
include hb hm

lemma setEntry_refines {entry : Entries → Except Err (Bytes × Bytes)} {guard : Prop} {live : Bool}
    (hz : NulFree pkValues)
    (hentry : ∀ k d, entry st = .ok (k,d) ↔ guard ∧ Enters t m tx pkValues live r k d) :
    ((setEntry lim entry st).1 = .ok () ∧ ∃ m', (guard ∧ Written t.toSchema lim tx pkValues r live m m') ∧
        Represents t.toSchema (setEntry lim entry st).2 m') ∨
      (∃ e, (setEntry lim entry st).1 = .error e) ∧
        (∀ m', ¬(guard ∧ Written t.toSchema lim tx pkValues r live m m')) ∧
        (setEntry lim entry st).2 = st := by
  rw [setEntry]
  cases he : entry st with
  | error e =>
    refine .inr ⟨⟨e,rfl⟩,fun m' hw => ?_,rfl⟩
    obtain ⟨hg,pk,hk,htx,hbefore,hlive,⟨d,hd,-⟩,-⟩ := hw
    have := (hentry (rowKey t.toSchema pk tx) d).mpr ⟨hg,pk,hk,htx,hbefore,hlive,hd,rfl⟩
    rw [he] at this
    cases this
  | ok kd =>
    obtain ⟨k,d⟩ := kd
    obtain ⟨hg,pk,hk,htx,hbefore,hlive,hd,rfl⟩ := (hentry k d).mp he
    simp only [storeSet]
    by_cases hacc : lim.accepts (rowKey t.toSchema pk tx) d = true
    · rw [if_pos hacc]
      refine .inl ⟨rfl,_,⟨hg,pk,hk,htx,hbefore,hlive,⟨d,hd,hacc⟩,rfl⟩,?_⟩
      exact represents_put hm (addresses_of_pkKey hb hz hk).readable htx hbefore
        (stores_of_encodeRow hd (lim.small hacc))
    · rw [if_neg hacc]
      refine .inr ⟨⟨_,rfl⟩,fun m' hw => ?_,rfl⟩
      obtain ⟨-,pk',hk',-,-,-,⟨d',hd',hacc'⟩,-⟩ := hw
      obtain rfl := Except.ok.inj (hk.symm.trans hk')
      obtain rfl := Except.ok.inj (hd.symm.trans hd')
      exact hacc hacc'

lemma validate_and_find_iff (hz : NulFree pkValues) {live : Bool} :
    (validateMonotonicTx t.toSchema st pkValues tx = .ok () ∧
      (findVisibleRow t.toSchema st pkValues tx).isOk = live) ↔
      ∃ pk, pkKey t.toSchema pkValues = .ok pk ∧ tx≠0 ∧ (m pk).Before tx ∧
        ((m pk).visible tx).isSome = live := by
  cases hk : pkKey t.toSchema pkValues with
  | error e =>
    simp only [reduceCtorEq,false_and,exists_false,iff_false,not_and]
    intro h
    rw [validateMonotonicTx,encodeRowVersionPrefix_eq,hk] at h
    simp only [Except.map] at h
    split at h <;> cases h
  | ok pk =>
    have ha := addresses_of_pkKey hb hz hk
    rw [hm.validate_ok_iff hb ha,hm.findVisibleRow_isOk hb ha]
    simp [and_assoc]

lemma checked_iff (hz : NulFree pkValues) {live : Bool} {k d : Bytes} :
    (validateMonotonicTx t.toSchema st pkValues tx = .ok () ∧
      (findVisibleRow t.toSchema st pkValues tx).isOk = live ∧
      encodeRow t.toSchema r = .ok d ∧ encodeRowKeyFromPK t.toSchema pkValues tx = .ok k) ↔
        Enters t m tx pkValues live r k d := by
  constructor
  · rintro ⟨hv,hf,hd,hk⟩
    obtain ⟨pk,hpk,htx,hbefore,hlive⟩ := (validate_and_find_iff hb hm hz).mp ⟨hv,hf⟩
    rw [encodeRowKeyFromPK_eq hpk] at hk
    exact ⟨pk,hpk,htx,hbefore,hlive,hd,(Except.ok.inj hk).symm⟩
  · rintro ⟨pk,hpk,htx,hbefore,hlive,hd,rfl⟩
    obtain ⟨hv,hf⟩ := (validate_and_find_iff hb hm hz).mpr ⟨pk,hpk,htx,hbefore,hlive⟩
    exact ⟨hv,hf,hd,encodeRowKeyFromPK_eq hpk tx⟩

lemma insertEntry_refines (hz : NulFree (pkOf t.toSchema values)) (k d : Bytes) :
    insertEntry t.toSchema st tx values = .ok (k,d) ↔
    (t.Fits values ∧ NulFree values) ∧ Enters t m tx (pkOf t.toSchema values) false (some values) k d := by
  rw [insertEntry_ok_iff,← checked_iff hb hm hz]
  constructor
  · rintro ⟨-,hchecked⟩
    exact ⟨(encodeEnterpriseValue_ok_iff ..).mp ⟨d,hchecked.2.2.1⟩,hchecked⟩
  · rintro ⟨⟨hfit,-⟩,hchecked⟩
    exact ⟨hfit.length,hchecked⟩

lemma updateEntry_refines (hz : NulFree pkValues) (k d : Bytes) :
    updateEntry t.toSchema st tx pkValues values = .ok (k,d) ↔
    (t.Fits values ∧ NulFree values ∧ pkOf t.toSchema values = pkValues) ∧
      Enters t m tx pkValues true (some values) k d := by
  rw [updateEntry_ok_iff]
  constructor
  · rintro ⟨hl,hv,hf,hc,hd,hk⟩
    obtain ⟨pk,hpk,hrest⟩ := (checked_iff (r := some values) hb hm hz).mp ⟨hv,hf,hd,hk⟩
    obtain ⟨hfit,hfree⟩ := (encodeEnterpriseValue_ok_iff ..).mp ⟨d,hd⟩
    exact ⟨⟨hfit,hfree,(comparePK_iff hpk hl).mp hc⟩,pk,hpk,hrest⟩
  · rintro ⟨⟨hfit,-,hpkof⟩,pk,hpk,hrest⟩
    obtain ⟨hv,hf,hd,hk⟩ := (checked_iff hb hm hz).mpr ⟨pk,hpk,hrest⟩
    exact ⟨hfit.length,hv,hf,(comparePK_iff hpk hfit.length).mpr hpkof,hd,hk⟩

lemma deleteEntry_refines (hz : NulFree pkValues) (k d : Bytes) :
    deleteEntry t.toSchema st tx pkValues = .ok (k,d) ↔ True ∧ Enters t m tx pkValues true none k d := by
  rw [deleteEntry_ok_iff,true_and]
  exact checked_iff (r := none) hb hm hz

end Step

/-- A store without rows of the table; version 0 belongs to no transaction. -/
structure Vacant (schema : Schema) (st : Entries) : Prop where
  sorted : Assoc.Sorted st
  other : ∀ {e tableID pk version}, e ∈ st →
    decodeTableRowKey e.1 schema.pkKinds = .ok (tableID,pk,version) → tableID≠schema.tableID ∧ version≠0

lemma Vacant.sound {schema : Schema} {st : Entries} (h : Vacant schema st) : Sound schema st where
  sorted := h.sorted
  versioned he hc := (h.other he hc).2
  stored he hc := absurd rfl (h.other he hc).1

lemma Vacant.versionsOf_eq {schema : Schema} {st : Entries} (h : Vacant schema st) (pk : List KeyValue) :
    versionsOf schema st pk = [] := by
  apply List.eq_nil_iff_forall_not_mem.mpr
  rintro ⟨v,d⟩ hm
  obtain ⟨hr,hm⟩ := mem_versionsOf.mp hm
  exact (h.other hm (hr v)).1 rfl

lemma represents_vacant {schema : Schema} {st : Entries} (h : Vacant schema st) :
    Represents schema st fun _ => Chain.empty where
  sound := h.sound
  chain pk := by
    rw [h.versionsOf_eq]
    rfl

lemma call_refines {t : Table} {lim : Limits} (hb : .bytes ∉ t.pkKinds) (c : TableCall)
    (st : Entries) (m : Mvcc)
    (hm : Represents t.toSchema st m) (hz : NulFree (c.keyOf t.toSchema)) :
    ∃ m', c.spec t.toSchema lim m (c.step t.toSchema lim st).1 m' ∧
      Represents t.toSchema (c.step t.toSchema lim st).2 m' := by
  have hwrite : ∀ {x : Except Err Unit × Entries} {P : Mvcc → Prop},
      (x.1 = .ok () ∧ ∃ m', P m' ∧ Represents t.toSchema x.2 m') ∨
        (∃ e, x.1 = .error e) ∧ (∀ m', ¬P m') ∧ x.2 = st →
      ∃ m', (x.1.map (fun _ => (none : Option (List Val))) = .ok none ∧ P m' ∨
        (∃ e, x.1.map (fun _ => (none : Option (List Val))) = .error e) ∧ (∀ m'', ¬P m'') ∧ m' = m) ∧
        Represents t.toSchema x.2 m' := by
    rintro x P (⟨hx,m',hP,hm'⟩ | ⟨⟨e,he⟩,hP,hst⟩)
    · exact ⟨m',.inl ⟨by rw [hx]; rfl,hP⟩,hm'⟩
    · exact ⟨m,.inr ⟨⟨e,by rw [he]; rfl⟩,hP,rfl⟩,hst ▸ hm⟩
  cases c with
  | insert tx values => exact hwrite (setEntry_refines hb hm hz (insertEntry_refines hb hm hz))
  | update tx pkValues newValues => exact hwrite (setEntry_refines hb hm hz (updateEntry_refines hb hm hz))
  | delete tx pkValues => exact hwrite (setEntry_refines hb hm hz (deleteEntry_refines hb hm hz))
  | get tx pkValues =>
    refine ⟨m,⟨?_,rfl⟩,hm⟩
    change (get t.toSchema st tx pkValues).map some = TableCall.answer ..
    rw [TableCall.answer]
    cases hk : pkKey t.toSchema pkValues with
    | error e =>
      rw [get,findVisibleRow,encodeRowVersionPrefix_eq,hk]
      rfl
    | ok pk =>
      have ha : Addresses t.toSchema pkValues pk := addresses_of_pkKey hb hz hk
      rw [hm.get_eq hb ha]
      simp only
      cases (m pk).visible tx <;> rfl

/-- Every run of calls with keys of numbers and strings without zero bytes. -/
theorem table_refines_version_chains {t : Table} {lim : Limits} {st : Entries} {calls : List TableCall}
    (hb : .bytes ∉ t.pkKinds) (hst : Vacant t.toSchema st)
    (hz : ∀ c ∈ calls, NulFree (c.keyOf t.toSchema)) :
    ∃ m, Machine.Trace (TableCall.spec t.toSchema lim) (fun _ => Chain.empty) calls
      (Machine.run (TableCall.step t.toSchema lim) calls st).1 m := by
  obtain ⟨m,ht,-⟩ :=
    Machine.run_traces (call_refines hb) (represents_vacant hst) (Machine.allowed_of_forall hz st)
  exact ⟨m,ht⟩

/-- `(id UINT64 PRIMARY KEY, name STRING)`. -/
def users : Table where
  tableID := 1
  columns := [⟨"id",.uint64⟩,⟨"name",.string⟩]
  pkIndices := [0]
  accepted := by decide

lemma vacant_nil (schema : Schema) : Vacant schema [] where
  sorted := List.Pairwise.nil
  other he := absurd he List.not_mem_nil

theorem table_refines_version_chains_insert_get :
    ∃ m, Machine.Trace (TableCall.spec users.toSchema btreeLimits) (fun _ => Chain.empty)
      [.insert 1 [.uint64 7,.string [65]],.get 1 [.uint64 7],.delete 2 [.uint64 7]]
      (Machine.run (TableCall.step users.toSchema btreeLimits)
        [.insert 1 [.uint64 7,.string [65]],.get 1 [.uint64 7],.delete 2 [.uint64 7]] []).1 m :=
  table_refines_version_chains (by decide) (vacant_nil _) (by
    intro c hc
    fin_cases hc <;> intro s hs <;> simp [TableCall.keyOf,pkOf,users] at hs)

/-- A value of the right type in a column outside the key is refused for its zero byte. -/
theorem insert_refuses_zero_byte :
    users.Fits [.uint64 7,.string [0]] ∧ NulFree (pkOf users.toSchema [.uint64 7,.string [0]]) ∧
      (∀ d : Bytes, d.length ≤ KV.maxValSizeEnterprise →
        btreeLimits.accepts (rowKey users.toSchema [.uint64 7] 1) d = true) ∧
      SQL.insert users.toSchema btreeLimits 1 [.uint64 7,.string [0]] [] =
        (.error .nullByteInString,[]) := by
  refine ⟨⟨rfl,?_⟩,?_,fun d hd => decide_eq_true ⟨by decide,hd⟩,by decide +kernel⟩
  · intro kv hkv
    fin_cases hkv
    · exact .inr trivial
    · exact .inr trivial
  · intro s hs
    simp [pkOf,users] at hs

end Plomvix.SQL
