import Plomvix.Lib.Fallible
import Plomvix.Lib.Machine
import Plomvix.SQL.Heap

/-! The versions of each primary key that a store holds, and the refinement of a map from primary
keys to version chains by the tables of the heap. -/
namespace Plomvix.SQL
open Lib Fallible

/-- The versions of a key in the store, read from the keys of the rows. -/
def versionsOf (schema : Schema) (st : Entries) (pk : List KeyValue) : List (UInt64 × Bytes) :=
  st.filterMap fun e =>
    match decodeTableRowKey e.1 schema.pkKinds with
    | .error _ => none
    | .ok (tableID,pk',version) => if tableID = schema.tableID ∧ pk' = pk then some (version,e.2) else none

def rowKey (schema : Schema) (pk : List KeyValue) (version : UInt64) : Bytes :=
  rowCode schema.tableID pk++be64 version

def Readable (schema : Schema) (pk : List KeyValue) : Prop :=
  ∀ version, decodeTableRowKey (rowKey schema pk version) schema.pkKinds = .ok (schema.tableID,pk,version)

def Stores (schema : Schema) (r : Option (List Val)) (data : Bytes) : Prop :=
  decodeEnterpriseValue schema data = .ok (r.getD [],r.isNone)

/-- `none` is a tombstone, or no row. -/
def rowOf (schema : Schema) (data : Bytes) : Option (List Val) :=
  match decodeEnterpriseValue schema data with
  | .ok (vals,false) => some vals
  | _ => none

/-- What every history of a table leaves in the store. -/
structure Sound (schema : Schema) (st : Entries) : Prop where
  sorted : Assoc.Sorted st
  versioned : ∀ {e tableID pk version}, e ∈ st →
    decodeTableRowKey e.1 schema.pkKinds = .ok (tableID,pk,version) → version≠0
  stored : ∀ {e pk version}, e ∈ st →
    decodeTableRowKey e.1 schema.pkKinds = .ok (schema.tableID,pk,version) → ∃ r, Stores schema r e.2

section Values
variable {schema : Schema} {r : Option (List Val)} {data : Bytes}

lemma Stores.rowOf_eq (h : Stores schema r data) : rowOf schema data = r := by
  unfold rowOf
  rw [h]
  cases r <;> rfl

lemma Stores.isTombstone_eq (h : Stores schema r data) : isTombstone data = r.isNone := by
  unfold Stores decodeEnterpriseValue at h
  cases data with
  | nil => cases h
  | cons flags rest =>
    simp only at h
    split at h
    · cases h
    rename_i hflags
    split at h
    · cases h
    split at h
    · rename_i ht
      rw [← (Prod.mk.inj (Except.ok.inj h)).2]
      simp [isTombstone,ht]
    · rename_i ht
      have hn : isTombstone (flags::rest) = false := by simp [isTombstone,ht]
      rw [hn]
      split at h
      · cases h
      split at h
      · cases h
      exact (Prod.mk.inj (Except.ok.inj h)).2

end Values

section Reading
variable {schema : Schema} {st : Entries} {pk pk' : List KeyValue} {v : UInt64} {d : Bytes}

lemma readable_of_decode {k : Bytes} (h : decodeTableRowKey k schema.pkKinds = .ok (schema.tableID,pk,v)) :
    k = rowKey schema pk v ∧ Readable schema pk := by
  obtain ⟨rfl,-,-⟩ := of_decodeTableRowKey h
  exact ⟨rfl,fun w => (decodeTableRowKey_swap h w).1⟩

lemma readable_of_delimited (hk : pk.map KeyValue.kind = schema.pkKinds) (hd : ∀ v ∈ pk, v.Delimited) :
    Readable schema pk := fun w => by
  rw [← hk]
  exact decodeTableRowKey_encode hd

lemma Readable.kinds (h : Readable schema pk) : pk.map KeyValue.kind = schema.pkKinds :=
  (of_decodeTableRowKey (h 0)).2.1

lemma Readable.delimited (h : Readable schema pk) (hb : .bytes ∉ schema.pkKinds) :
    ∀ v ∈ pk, v.Delimited := by
  obtain ⟨-,hkinds,hdel⟩ := of_decodeTableRowKey (h 0)
  exact fun v hv => (hdel v hv).resolve_right fun he => hb (hkinds ▸ he ▸ List.mem_map_of_mem hv)

lemma rowKey_injective {v' : UInt64} (h : Readable schema pk) (h' : Readable schema pk')
    (he : rowKey schema pk v = rowKey schema pk' v') : pk = pk' ∧ v = v' := by
  have h1 := h v
  rw [he,h' v'] at h1
  obtain ⟨hpk,hv⟩ := Prod.mk.inj (Prod.mk.inj (Except.ok.inj h1)).2
  exact ⟨hpk.symm,hv.symm⟩

lemma mem_versionsOf : (v,d) ∈ versionsOf schema st pk ↔ Readable schema pk ∧
      (rowKey schema pk v,d) ∈ st := by
  simp only [versionsOf,List.mem_filterMap]
  constructor
  · rintro ⟨⟨k,d'⟩,hm,he⟩
    split at he
    · cases he
    rename_i hc
    simp only [Option.ite_none_right_eq_some,Option.some.injEq,Prod.mk.injEq] at he
    obtain ⟨⟨rfl,rfl⟩,rfl,rfl⟩ := he
    obtain ⟨rfl,hr⟩ := readable_of_decode hc
    exact ⟨hr,hm⟩
  · rintro ⟨hr,hm⟩
    exact ⟨_,hm,by simp [hr v]⟩

lemma sorted_versionsOf (hs : Assoc.Sorted st) (pk : List KeyValue) :
    Assoc.Sorted (versionsOf schema st pk) := by
  refine List.pairwise_map.mpr (List.Pairwise.filterMap _ ?_ (List.pairwise_map.mp hs))
  intro e e' hlt x hx y hy
  have hkey : ∀ {e : Bytes × Bytes} {x : UInt64 × Bytes},
    x ∈ (match decodeTableRowKey e.1 schema.pkKinds with
      | .error _ => none
      | .ok (tableID,pk',version) =>
        if tableID = schema.tableID ∧ pk' = pk then some (version,e.2) else none) →
      e.1 = rowKey schema pk x.1 := by
    intro e x hx
    split at hx
    · cases hx
    rename_i hc
    simp only [Option.mem_def,Option.ite_none_right_eq_some,Option.some.injEq] at hx
    obtain ⟨⟨rfl,rfl⟩,rfl⟩ := hx
    exact (readable_of_decode hc).1
  rw [hkey hx,hkey hy,rowKey,rowKey,append_lt_append_iff] at hlt
  exact be64_lt_iff.mp hlt

lemma inRange_scanBounds (tableID : UInt64) (a k : Bytes) :
    KV.InRange (scanBounds (tablePrefix tableID++a)).1 (scanBounds (tablePrefix tableID++a)).2 k ↔
      Within (tablePrefix tableID++a) k := by
  obtain ⟨c,b,n,hp,-,he⟩ := prefixEnd_eq (tablePrefix_not_full tableID a)
  have h1 : tablePrefix tableID++a≠[] := by simp [tablePrefix]
  have h2 : (prefixEnd (tablePrefix tableID++a)).getD []≠[] := by simp [he]
  simp only [KV.InRange,scanBounds,Within,h1,h2,false_or]

lemma rowVersions_scan (hs : Sound schema st) (hb : .bytes ∉ schema.pkKinds) (hr : Readable schema pk) :
    rowVersions schema (storeScan st (scanBounds (rowCode schema.tableID pk)).1
      (scanBounds (rowCode schema.tableID pk)).2) =
      versionsOf schema st pk := by
  rw [rowVersions,storeScan,versionsOf,List.filterMap_filter]
  refine List.filterMap_congr fun e he => ?_
  cases hc : decodeTableRowKey e.1 schema.pkKinds with
  | error _ => simp
  | ok x =>
    obtain ⟨tableID,pk',version⟩ := x
    obtain ⟨hk,hkinds,hdel⟩ := of_decodeTableRowKey hc
    have hdel' : ∀ v ∈ pk', v.Delimited := fun v hv =>
      (hdel v hv).resolve_right fun h => hb (hkinds ▸ h ▸ List.mem_map_of_mem hv)
    have hiff : Within (rowCode schema.tableID pk) e.1 ↔ tableID = schema.tableID ∧ pk' = pk := by
      rw [hk]
      constructor
      · intro hin
        obtain ⟨h1,h2⟩ := row_of_within (hr.delimited hb) hdel' (hr.kinds.trans hkinds.symm)
          (hs.versioned he hc) hin
        exact ⟨h1.symm,h2.symm⟩
      · rintro ⟨rfl,rfl⟩
        exact within_append ..
    exact if_congr (decide_eq_true_iff.trans ((inRange_scanBounds ..).trans hiff)) rfl rfl

end Reading

section Writing
variable {schema : Schema} {st : Entries} {pk pk' : List KeyValue} {v : UInt64} {d : Bytes}
  {r : Option (List Val)}

lemma sound_put (hs : Sound schema st) (hv : v≠0) (hd : Stores schema r d) :
    Sound schema (Assoc.put (rowKey schema pk v) d st) where
  sorted := Assoc.sorted_put _ _ hs.sorted
  versioned {e tableID pk' version} he hc := by
    obtain ⟨hk,-⟩ | ⟨he,-⟩ := (Assoc.mem_put_iff hs.sorted).mp he
    · rw [hk] at hc
      exact (decodeTableRowKey_swap hc v).2.2.2 ▸ hv
    · exact hs.versioned he hc
  stored {e pk' version} he hc := by
    obtain ⟨-,rfl⟩ | ⟨he,-⟩ := (Assoc.mem_put_iff hs.sorted).mp he
    · exact ⟨r,hd⟩
    · exact hs.stored he hc

lemma versionsOf_put_same (hs : Assoc.Sorted st) (hr : Readable schema pk) :
    versionsOf schema (Assoc.put (rowKey schema pk v) d st) pk =
      Assoc.put v d (versionsOf schema st pk) := by
  refine (sorted_versionsOf (Assoc.sorted_put _ _ hs) pk).ext
    (Assoc.sorted_put _ _ (sorted_versionsOf hs pk)) ?_
  rintro ⟨w,d'⟩
  rw [mem_versionsOf,Assoc.mem_put_iff hs,Assoc.mem_put_iff (sorted_versionsOf hs pk),mem_versionsOf]
  have hkey : rowKey schema pk w = rowKey schema pk v ↔ w = v :=
    ⟨fun h => (rowKey_injective hr hr h).2,fun h => h ▸ rfl⟩
  rw [Ne,hkey]
  tauto

lemma versionsOf_put_other (hs : Assoc.Sorted st)
    (h : Readable schema pk' → rowCode schema.tableID pk'≠rowCode schema.tableID pk) :
    versionsOf schema (Assoc.put (rowKey schema pk v) d st) pk' = versionsOf schema st pk' := by
  refine (sorted_versionsOf (Assoc.sorted_put _ _ hs) pk').ext (sorted_versionsOf hs pk') ?_
  rintro ⟨w,d'⟩
  rw [mem_versionsOf,mem_versionsOf,Assoc.mem_put_iff hs]
  refine and_congr_right fun hr => ?_
  have hne : rowKey schema pk' w≠rowKey schema pk v := fun he => h hr (List.append_inj' he (by simp)).1
  simp [hne]

end Writing

section Keys
variable {t : Table} {pkValues : List Val} {pk : List KeyValue}

def pkKey (schema : Schema) (pkValues : List Val) : Except Err (List KeyValue) :=
  if pkValues.length≠schema.pkIndices.length then .error .columnCountMismatch else
    keyValues schema.pkKinds pkValues

lemma anyToKeyValue_kind {kind : Kind} {v : Val} {kv : KeyValue}
    (h : anyToKeyValue kind v = .ok kv) : kv.kind = kind := by
  cases kind <;> cases v <;> simp [anyToKeyValue] at h <;> subst h <;> rfl

lemma keyValues_cons_ok {kind : Kind} {kinds : List Kind} {v : Val} {vs : List Val} {kvs : List KeyValue}
    (h : keyValues (kind::kinds) (v::vs) = .ok kvs) :
    ∃ kv rest, anyToKeyValue kind v = .ok kv ∧ keyValues kinds vs = .ok rest ∧ kvs = kv::rest := by
  rw [keyValues] at h
  split at h
  · cases h
  rename_i kv hv
  split at h
  · cases h
  rename_i rest hvs
  exact ⟨kv,rest,hv,hvs,(Except.ok.inj h).symm⟩

lemma keyValues_kinds {kinds : List Kind} {vs : List Val} {kvs : List KeyValue}
    (hl : vs.length = kinds.length)
    (h : keyValues kinds vs = .ok kvs) : kvs.map KeyValue.kind = kinds := by
  induction kinds generalizing vs kvs with
  | nil =>
    cases h
    rfl
  | cons kind kinds ih =>
    cases vs with
    | nil => simp at hl
    | cons v vs =>
      obtain ⟨kv,rest,hv,hvs,rfl⟩ := keyValues_cons_ok h
      rw [List.map_cons,anyToKeyValue_kind hv,ih (by simpa using hl) hvs]

lemma pkKey_kinds (h : pkKey t.toSchema pkValues = .ok pk) : pk.map KeyValue.kind = t.pkKinds := by
  rw [pkKey] at h
  split at h
  · cases h
  · rename_i hl
    exact keyValues_kinds (by simpa [Schema.pkKinds] using not_not.mp hl) h

lemma Table.pkIndices_ne (t : Table) : t.pkIndices≠[] := fun he => by
  have h := t.accepted
  simp [openTable,he] at h

lemma pkKey_ne (h : pkKey t.toSchema pkValues = .ok pk) : pk≠[] := fun he => by
  have hk := pkKey_kinds h
  rw [he] at hk
  exact t.pkIndices_ne (by simpa [Schema.pkKinds] using hk.symm)

lemma encodeRowVersionPrefix_eq (t : Table) (pkValues : List Val) :
    encodeRowVersionPrefix t.toSchema pkValues =
      (pkKey t.toSchema pkValues).map fun pk => scanBounds (rowCode t.tableID pk) := by
  rw [encodeRowVersionPrefix]
  cases hk : pkKey t.toSchema pkValues with
  | error e =>
    rw [pkKey] at hk
    split at hk
    · rename_i hl
      rw [if_pos hl,← hk]
      rfl
    · rename_i hl
      rw [if_neg hl,hk]
      rfl
  | ok pk =>
    have hne := pkKey_ne hk
    rw [pkKey] at hk
    split at hk
    · cases hk
    rename_i hl
    rw [if_neg hl,hk]
    simp only [encodeTableRowPrefix,if_neg hne]
    rfl

lemma encodeRowKeyFromPK_eq (h : pkKey t.toSchema pkValues = .ok pk) (tx : UInt64) :
    encodeRowKeyFromPK t.toSchema pkValues tx = .ok (rowKey t.toSchema pk tx) := by
  have hne := pkKey_ne h
  rw [pkKey] at h
  split at h
  · cases h
  rename_i hl
  rw [encodeRowKeyFromPK,if_neg hl,h]
  simp only [encodeTableRowKey,if_neg hne]
  rfl

end Keys

/-- The values address this key: they have its code, and its rows can be read. -/
structure Addresses (schema : Schema) (pkValues : List Val) (pk : List KeyValue) : Prop where
  readable : Readable schema pk
  code : ∃ pk', pkKey schema pkValues = .ok pk' ∧ rowCode schema.tableID pk' = rowCode schema.tableID pk

section Checks
variable {t : Table} {st : Entries} {pkValues : List Val} {pk : List KeyValue} {tx : UInt64}
  (hb : .bytes ∉ t.pkKinds) (hs : Sound t.toSchema st)
include hb hs

lemma validateMonotonicTx_ok_iff (ha : Addresses t.toSchema pkValues pk) :
    validateMonotonicTx t.toSchema st pkValues tx = .ok () ↔
      tx≠0 ∧ ∀ x ∈ versionsOf t.toSchema st pk, x.1 < tx := by
  obtain ⟨hr,pk',hk,hcode⟩ := ha
  rw [validateMonotonicTx,encodeRowVersionPrefix_eq,hk]
  simp only [Except.map,hcode,rowVersions_scan hs hb hr]
  by_cases htx : tx = 0
  · simp [htx]
  · simp [htx]

lemma findVisibleRow_eq (ha : Addresses t.toSchema pkValues pk) :
    findVisibleRow t.toSchema st pkValues tx =
      match latestOf tx (versionsOf t.toSchema st pk) with
      | none => .error .keyNotFound
      | some x =>
        match rowOf t.toSchema x.2 with
        | none => .error .keyNotFound
        | some row => .ok (row,x.1) := by
  obtain ⟨hr,pk',hk,hcode⟩ := ha
  rw [findVisibleRow,encodeRowVersionPrefix_eq,hk]
  simp only [Except.map,hcode,rowVersions_scan hs hb hr]
  have hsort : Assoc.Sorted ((versionsOf t.toSchema st pk).filter (·.1 ≤ tx)) :=
    (sorted_versionsOf hs.sorted pk).sublist (List.filter_sublist.map _)
  rw [latestOf,← head?_insertionSort hsort]
  cases hl : ((versionsOf t.toSchema st pk).filter (·.1 ≤ tx)).insertionSort fun a b => b.1 ≤ a.1 with
  | nil => rfl
  | cons x l =>
    have hx : x ∈ versionsOf t.toSchema st pk := by
      have := (List.mem_insertionSort _).mp (hl ▸ List.mem_cons_self : x ∈ _)
      exact (List.mem_filter.mp this).1
    obtain ⟨hread,hm⟩ := mem_versionsOf.mp hx
    obtain ⟨r,hst⟩ := hs.stored hm (hread x.1)
    simp only [List.head?_cons]
    rw [hst.rowOf_eq]
    rw [Stores] at hst
    simp only [hst]
    cases r <;> rfl

end Checks

abbrev Mvcc := List KeyValue → Chain UInt64 (List Val)

/-- The entries of the store are those of the version chains. -/
structure Represents (schema : Schema) (st : Entries) (m : Mvcc) : Prop where
  sound : Sound schema st
  chain : ∀ pk, (m pk).versions = (versionsOf schema st pk).map fun x => (x.1,rowOf schema x.2)

section Represents
variable {t : Table} {st : Entries} {m : Mvcc} {pkValues : List Val} {pk : List KeyValue} {tx : UInt64}

lemma Represents.before_iff {schema : Schema} (hm : Represents schema st m) :
    (m pk).Before tx ↔ ∀ x ∈ versionsOf schema st pk, x.1 < tx := by
  rw [Chain.Before,hm.chain,List.forall_mem_map]

lemma Represents.visible_eq {schema : Schema} (hm : Represents schema st m) :
    (m pk).visible tx = (latestOf tx (versionsOf schema st pk)).bind fun x => rowOf schema x.2 := by
  rw [Chain.visible,hm.chain,latestOf_map,Option.bind_map]
  rfl

lemma represents_put {schema : Schema} {r : Option (List Val)} {d : Bytes} (hm : Represents schema st m)
    (hr : Readable schema pk) (hv : tx≠0) (hbefore : (m pk).Before tx) (hd : Stores schema r d) :
    Represents schema (Assoc.put (rowKey schema pk tx) d st)
      (Function.update m pk ((m pk).push tx r hbefore)) where
  sound := sound_put hm.sound hv hd
  chain pk' := by
    by_cases he : pk' = pk
    · subst he
      have hnew :=
        Assoc.put_new (v := d) (hm.before_iff.mp hbefore) (fun e he => absurd he List.not_mem_nil)
      rw [List.append_nil] at hnew
      rw [Function.update_self,versionsOf_put_same hm.sound.sorted hr,hnew,List.map_append,← hm.chain]
      simp [Chain.push,hd.rowOf_eq]
    · rw [Function.update_of_ne he,versionsOf_put_other hm.sound.sorted,hm.chain]
      intro hr' hcode
      have hkey : rowKey schema pk' 0 = rowKey schema pk 0 := by rw [rowKey,rowKey,hcode]
      exact he (rowKey_injective hr' hr hkey).1

variable (hb : .bytes ∉ t.pkKinds) (hm : Represents t.toSchema st m)
  (ha : Addresses t.toSchema pkValues pk)
include hb hm ha

lemma Represents.validate_ok_iff :
    validateMonotonicTx t.toSchema st pkValues tx = .ok () ↔ tx≠0 ∧ (m pk).Before tx := by
  rw [validateMonotonicTx_ok_iff hb hm.sound ha,hm.before_iff]

lemma Represents.findVisibleRow_isOk :
    (findVisibleRow t.toSchema st pkValues tx).isOk = ((m pk).visible tx).isSome := by
  rw [findVisibleRow_eq hb hm.sound ha,hm.visible_eq]
  cases latestOf tx (versionsOf t.toSchema st pk) with
  | none => rfl
  | some x => cases h : rowOf t.toSchema x.2 <;> simp [h,Except.isOk,Except.toBool]

lemma Represents.get_eq :
    get t.toSchema st tx pkValues =
      match (m pk).visible tx with
      | none => .error .keyNotFound
      | some row => .ok row := by
  rw [get,findVisibleRow_eq hb hm.sound ha,hm.visible_eq]
  cases latestOf tx (versionsOf t.toSchema st pk) with
  | none => rfl
  | some x => cases h : rowOf t.toSchema x.2 <;> simp [h,Except.map]

end Represents

section Entries
variable {schema : Schema} {st : Entries} {tx : UInt64} {pkValues values : List Val} {k d : Bytes}

lemma check_eq_ok {p : Prop} [Decidable p] {e : Err} {u : Unit} : check p e = .ok u ↔ p := by
  by_cases h : p <;> simp [check,h]

lemma insertEntry_ok_iff : insertEntry schema st tx values = .ok (k,d) ↔
    values.length = schema.columns.length ∧
      validateMonotonicTx schema st (pkOf schema values) tx = .ok () ∧
      (findVisibleRow schema st (pkOf schema values) tx).isOk = false ∧
      encodeEnterpriseValue schema (some values) flagNormal = .ok d ∧
      encodeRowKeyFromPK schema (pkOf schema values) tx = .ok k := by
  simp only [insertEntry,bind_eq_ok,check_eq_ok,pure,Except.pure,Except.ok.injEq,Prod.mk.injEq]
  constructor
  · rintro ⟨_,h1,_,h2,_,h3,d',h4,k',h5,rfl,rfl⟩
    exact ⟨h1,h2,h3,h4,h5⟩
  · rintro ⟨h1,h2,h3,h4,h5⟩
    exact ⟨(),h1,(),h2,(),h3,d,h4,k,h5,rfl,rfl⟩

lemma updateEntry_ok_iff : updateEntry schema st tx pkValues values = .ok (k,d) ↔
    values.length = schema.columns.length ∧ validateMonotonicTx schema st pkValues tx = .ok () ∧
      (findVisibleRow schema st pkValues tx).isOk = true ∧ comparePK schema pkValues values = true ∧
      encodeEnterpriseValue schema (some values) flagNormal = .ok d ∧
      encodeRowKeyFromPK schema pkValues tx = .ok k := by
  simp only [updateEntry,bind_eq_ok,check_eq_ok,pure,Except.pure,Except.ok.injEq,Prod.mk.injEq]
  constructor
  · rintro ⟨_,h1,_,h2,_,h3,_,h4,d',h5,k',h6,rfl,rfl⟩
    exact ⟨h1,h2,h3,h4,h5,h6⟩
  · rintro ⟨h1,h2,h3,h4,h5,h6⟩
    exact ⟨(),h1,(),h2,(),h3,(),h4,d,h5,k,h6,rfl,rfl⟩

lemma deleteEntry_ok_iff : deleteEntry schema st tx pkValues = .ok (k,d) ↔
    validateMonotonicTx schema st pkValues tx = .ok () ∧
      (findVisibleRow schema st pkValues tx).isOk = true ∧
      encodeEnterpriseValue schema none flagTombstone = .ok d ∧
        encodeRowKeyFromPK schema pkValues tx = .ok k := by
  simp only [deleteEntry,bind_eq_ok,check_eq_ok,pure,Except.pure,Except.ok.injEq,Prod.mk.injEq]
  constructor
  · rintro ⟨_,h1,_,h2,d',h3,k',h4,rfl,rfl⟩
    exact ⟨h1,h2,h3,h4⟩
  · rintro ⟨h1,h2,h3,h4⟩
    exact ⟨(),h1,(),h2,d,h3,k,h4,rfl,rfl⟩

end Entries

section KeyOf
variable {t : Table} {pkValues values : List Val} {pk : List KeyValue}

/-- No string among the values has a zero byte. -/
def NulFree (values : List Val) : Prop := ∀ s, .string s ∈ values → 0 ∉ s

lemma keyValues_delimited {kinds : List Kind} {vs : List Val} {kvs : List KeyValue} (hb : .bytes ∉ kinds)
    (hz : NulFree vs) (h : keyValues kinds vs = .ok kvs) : ∀ v ∈ kvs, v.Delimited := by
  induction kinds generalizing vs kvs with
  | nil =>
    cases h
    exact fun v hv => absurd hv List.not_mem_nil
  | cons kind kinds ih =>
    cases vs with
    | nil =>
      cases h
      exact fun v hv => absurd hv List.not_mem_nil
    | cons v vs =>
      obtain ⟨kv,rest,hv,hvs,rfl⟩ := keyValues_cons_ok h
      have hhead : kv.Delimited := by
        have hkind : kind≠.bytes := fun he => hb (he ▸ List.mem_cons_self ..)
        cases kind <;> cases v <;> simp [anyToKeyValue] at hv hkind <;> subst hv
        · trivial
        · trivial
        · exact hz _ (List.mem_cons_self ..)
      have hrest := ih (fun hm => hb (List.mem_cons_of_mem _ hm)) (fun s hs =>
        hz s (List.mem_cons_of_mem _ hs)) hvs
      exact fun x hx => (List.mem_cons.mp hx).elim (fun he => he ▸ hhead) (hrest x)

lemma addresses_of_pkKey (hb : .bytes ∉ t.pkKinds) (hz : NulFree pkValues)
    (h : pkKey t.toSchema pkValues = .ok pk) :
    Addresses t.toSchema pkValues pk := by
  refine ⟨readable_of_delimited (pkKey_kinds h) ?_,pk,h,rfl⟩
  rw [pkKey] at h
  split at h
  · cases h
  · exact keyValues_delimited hb hz h

lemma valueEqual_iff {kind : Kind} {a b : Val} {kv : KeyValue} (h : anyToKeyValue kind a = .ok kv) :
    valueEqual a b = true ↔ b = a := by
  cases kind <;> cases a <;> simp [anyToKeyValue] at h <;> cases b <;> simp [valueEqual,eq_comm]

lemma pkValue_of_keyValues {kinds : List Kind} {vs : List Val} {kvs : List KeyValue}
    (hl : vs.length = kinds.length)
    (h : keyValues kinds vs = .ok kvs) : ∀ v ∈ vs, ∃ kind kv, anyToKeyValue kind v = .ok kv := by
  induction kinds generalizing vs kvs with
  | nil =>
    rw [List.length_eq_zero_iff.mp hl]
    exact fun v hv => absurd hv List.not_mem_nil
  | cons kind kinds ih =>
    cases vs with
    | nil => exact fun v hv => absurd hv List.not_mem_nil
    | cons v vs =>
      obtain ⟨kv,rest,hv,hvs,-⟩ := keyValues_cons_ok h
      exact fun x hx => (List.mem_cons.mp hx).elim (fun he =>
        he ▸ ⟨kind,kv,hv⟩) (ih (by simpa using hl) hvs x)

lemma Table.index_lt (t : Table) : ∀ idx ∈ t.pkIndices, idx < t.columns.length := fun idx hi => by
  have h := t.accepted
  rw [openTable] at h
  split at h
  · cases h
  split at h
  · cases h
  split at h
  · cases h
  rename_i hn
  exact not_le.mp fun hge => hn ⟨idx,hi,.inr hge⟩

lemma comparePK_iff (hk : pkKey t.toSchema pkValues = .ok pk) (hl : values.length = t.columns.length) :
    comparePK t.toSchema pkValues values = true ↔ pkOf t.toSchema values = pkValues := by
  rw [pkKey] at hk
  split at hk
  · cases hk
  rename_i hlen
  have hval := pkValue_of_keyValues (by simpa [Schema.pkKinds] using hlen) hk
  rw [not_not] at hlen
  have hgen : ∀ (is : List ℤ) (vs : List Val), vs.length = is.length → (∀ idx ∈ is, idx < values.length) →
      (∀ v ∈ vs, ∃ kind kv, anyToKeyValue kind v = .ok kv) →
      (((is.zip vs).all fun x =>
        decide (x.1 < values.length) && valueEqual x.2 (values.getD x.1.toNat .null)) = true ↔
        is.map (fun idx => values.getD idx.toNat .null) = vs) := by
    intro is
    induction is with
    | nil => simp +contextual [List.length_eq_zero_iff]
    | cons i is ih =>
      intro vs h1 h2 h3
      cases vs with
      | nil => simp at h1
      | cons v vs =>
        obtain ⟨kind,kv,hv⟩ := h3 v (List.mem_cons_self ..)
        have hrest := ih vs (by simpa using h1) (fun x hx => h2 x (List.mem_cons_of_mem _ hx))
          fun x hx => h3 x (List.mem_cons_of_mem _ hx)
        have hi := h2 i (List.mem_cons_self ..)
        simp only [List.zip_cons_cons,List.all_cons,List.map_cons,List.cons.injEq,Bool.and_eq_true,hrest,
          valueEqual_iff hv,decide_eq_true_eq,hi,true_and]
  exact hgen t.pkIndices pkValues hlen (fun idx hi => hl ▸ t.index_lt idx hi) hval

end KeyOf
end Plomvix.SQL
