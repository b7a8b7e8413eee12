import Plomvix.SQL.Refinement

/-! The stores that the calls of a table and its vacuums lead to, vacuums cut short included, and
what the table-wide scans find in them. -/
namespace Plomvix.SQL
open Lib

/-- Every history of a table; a vacuum may go through the groups in any order and stop anywhere. -/
inductive Reached (t : Table) : Entries → Prop
  | start {st : Entries} (h : Vacant t.toSchema st) : Reached t st
  | call {st : Entries} (h : Reached t st) (lim : Limits) (c : TableCall) :
      Reached t (c.step t.toSchema lim st).2
  | vacuum {st : Entries} (h : Reached t st) (olderThan : UInt64) {order : List (Bytes × List RowEntry)}
      (horder : order.Perm (rowGroups t.toSchema st)) (n : ℕ) : Reached t (vacuum olderThan order n st)

section Rows
variable {schema : Schema} {st : Entries} {e e' : RowEntry} {pk : List KeyValue}

lemma extractPKPrefix_rowKey (schema : Schema) (pk : List KeyValue) (v : UInt64) :
    extractPKPrefix (rowKey schema pk v) = rowCode schema.tableID pk := by
  have hlen : (rowKey schema pk v).length = (rowCode schema.tableID pk).length+8 := by simp [rowKey]
  have hpos : 0 < (rowCode schema.tableID pk).length := by simp [rowCode,tablePrefix]
  rw [extractPKPrefix,if_neg (by omega),hlen,Nat.add_sub_cancel,rowKey,List.take_left]

lemma mem_tableRows : e ∈ tableRows schema st ↔
    ∃ pk, e.keyBytes = rowKey schema pk e.version ∧ (e.version,e.data) ∈ versionsOf schema st pk := by
  have hrange := inRange_scanBounds schema.tableID []
  rw [List.append_nil] at hrange
  simp only [tableRows,storeScan,List.mem_filterMap,List.mem_filter,decide_eq_true_eq,hrange]
  constructor
  · rintro ⟨⟨k,d⟩,⟨hm,hin⟩,he⟩
    split at he
    · cases he
    rename_i tableID pk v hc
    obtain rfl := Option.some.inj he
    have hk : k = rowCode tableID pk++be64 v := (of_decodeTableRowKey hc).1
    have hpre' : tablePrefix tableID <+: k := by
      rw [hk,rowCode,List.append_assoc]
      exact List.prefix_append ..
    have hlen : 9 ≤ k.length := tablePrefix_length tableID ▸ hpre'.length_le
    have heq : tablePrefix schema.tableID = tablePrefix tableID :=
      (List.prefix_of_prefix_length_le (table_of_within hin hlen) hpre'
        (by simp [tablePrefix_length])).eq_of_length
        (by simp [tablePrefix_length])
    obtain rfl := be64_injective (List.cons.inj heq).2
    obtain ⟨hk,hr⟩ := readable_of_decode hc
    exact ⟨pk,hk,mem_versionsOf.mpr ⟨hr,hk ▸ hm⟩⟩
  · rintro ⟨pk,hk,hm⟩
    obtain ⟨hr,hm⟩ := mem_versionsOf.mp hm
    have hin := within_append schema.tableID [] (pk.flatMap encodeColumn++be64 e.version)
    rw [List.append_nil,← List.append_assoc] at hin
    refine ⟨(rowKey schema pk e.version,e.data),⟨hm,hin⟩,?_⟩
    rw [hr e.version,← hk]

lemma pkBytes_of_rowKey (h : e.keyBytes = rowKey schema pk e.version) :
    e.pkBytes = rowCode schema.tableID pk := by
  rw [RowEntry.pkBytes,h,extractPKPrefix_rowKey]

lemma mem_tableRows_of_code (hr : Readable schema pk) (hc : e.pkBytes = rowCode schema.tableID pk) :
    e ∈ tableRows schema st ↔ e.keyBytes = rowKey schema pk e.version ∧
      (e.version,e.data) ∈ versionsOf schema st pk := by
  rw [mem_tableRows]
  constructor
  · rintro ⟨pk',hk,hm⟩
    rw [pkBytes_of_rowKey hk] at hc
    have hkey : rowKey schema pk' e.version = rowKey schema pk e.version := by rw [rowKey,rowKey,hc]
    obtain ⟨rfl,-⟩ := rowKey_injective (mem_versionsOf.mp hm).1 hr hkey
    exact ⟨hk,hm⟩
  · exact fun h => ⟨pk,h⟩

lemma eq_of_tableRows (hs : Assoc.Sorted st) (he : e ∈ tableRows schema st)
    (he' : e' ∈ tableRows schema st)
    (hc : e.pkBytes = e'.pkBytes) (hv : e.version = e'.version) : e = e' := by
  obtain ⟨pk,hk,hm⟩ := mem_tableRows.mp he
  have hread := (mem_versionsOf.mp hm).1
  rw [pkBytes_of_rowKey hk] at hc
  obtain ⟨hk',hm'⟩ := (mem_tableRows_of_code hread hc.symm).mp he'
  rw [← hv] at hk' hm'
  have hd := congrArg Prod.snd ((sorted_versionsOf hs pk).eq_of_key hm hm' rfl)
  cases e
  cases e'
  simp_all

end Rows

section Groups
variable {o : UInt64} {group : List RowEntry} {e : RowEntry}

instance : Std.Total (fun a b : RowEntry => b.version ≤ a.version) :=
  ⟨fun a b => le_total b.version a.version⟩
instance : IsTrans RowEntry (fun a b => b.version ≤ a.version) := ⟨fun _ _ _ h h' => h'.trans h⟩

lemma vacuumGroup_descending (o : UInt64) (group : List RowEntry) :
    (vacuumGroup o group).Pairwise fun a b => b.version ≤ a.version := by
  unfold vacuumGroup
  simp only
  split
  · exact List.Pairwise.nil
  · exact (List.pairwise_insertionSort _ group).sublist List.filter_sublist

lemma vacuumGroup_subset (he : e ∈ vacuumGroup o group) : e ∈ group := by
  unfold vacuumGroup at he
  simp only at he
  split at he
  · exact absurd he List.not_mem_nil
  · exact (List.mem_insertionSort _).mp (List.mem_filter.mp he).1

lemma find?_highestOld {h : RowEntry}
    (hf : (group.insertionSort fun a b => b.version ≤ a.version).find? (·.version ≤ o) = some h) :
    h ∈ group ∧ h.version ≤ o ∧ ∀ x ∈ group, x.version ≤ o → x.version ≤ h.version := by
  have hsort := List.pairwise_insertionSort (fun a b : RowEntry => b.version ≤ a.version) group
  obtain ⟨hh,as,bs,hl,hbefore⟩ := List.find?_eq_some_iff_append.mp hf
  have hmem : ∀ x, x ∈ group ↔ x ∈ as++h::bs := fun x => by rw [← hl,List.mem_insertionSort]
  rw [hl,List.pairwise_append,List.pairwise_cons] at hsort
  refine ⟨(hmem h).mpr (by simp),by simpa using hh,fun x hx hxo => ?_⟩
  obtain hx | hx := List.mem_append.mp ((hmem x).mp hx)
  · exact absurd hxo (by simpa using hbefore x hx)
  · obtain rfl | hx := List.mem_cons.mp hx
    · exact le_rfl
    · exact hsort.2.1.1 x hx

lemma mem_vacuumGroup (hinj : ∀ x ∈ group, ∀ y ∈ group, x.version = y.version → x = y) :
    e ∈ vacuumGroup o group ↔ e ∈ group ∧ e.version ≤ o ∧
      ∃ h ∈ group, h.version ≤ o ∧ (∀ x ∈ group, x.version ≤ o → x.version ≤ h.version) ∧
        (isTombstone h.data = true ∧ (∀ x ∈ group, x.version ≤ o) ∨ isTombstone h.data = false ∧
          e.version < h.version) := by
  unfold vacuumGroup
  simp only
  cases hf : (group.insertionSort fun a b => b.version ≤ a.version).find? (·.version ≤ o) with
  | none =>
    have hnone : ∀ x ∈ group, ¬x.version ≤ o := fun x hx => by
      simpa using List.find?_eq_none.mp hf x ((List.mem_insertionSort _).mpr hx)
    constructor
    · exact fun h => absurd h List.not_mem_nil
    · rintro ⟨he,heo,-⟩
      exact absurd heo (hnone e he)
  | some h =>
    obtain ⟨hh,hho,hmax⟩ := find?_highestOld hf
    simp only [List.mem_filter,List.mem_insertionSort,Bool.and_eq_true,Bool.or_eq_true,Bool.not_eq_true',
      decide_eq_true_eq,List.any_eq_false,not_lt]
    constructor
    · rintro ⟨he,heo,hcase⟩
      exact ⟨he,heo,h,hh,hho,hmax,hcase⟩
    · rintro ⟨he,heo,h',hh',hho',hmax',hcase⟩
      obtain rfl := hinj h hh h' hh' (le_antisymm (hmax' h hh hho) (hmax h' hh' hho'))
      exact ⟨he,heo,hcase⟩

lemma mem_take_vacuumed {order : List (Bytes × List RowEntry)} (hnd : (order.map Prod.fst).Nodup)
    (hcode : ∀ g ∈ order, ∀ e ∈ g.2, e.pkBytes = g.1) {g : Bytes × List RowEntry} (hg : g ∈ order)
    (n : ℕ) :
    ∃ i, ∀ e : RowEntry, e.pkBytes = g.1 →
      (e ∈ (vacuumed o order).take n ↔ e ∈ (vacuumGroup o g.2).take i) := by
  induction order generalizing n with
  | nil => exact absurd hg List.not_mem_nil
  | cons g' order ih =>
    rw [List.map_cons,List.nodup_cons] at hnd
    have hrest : ∀ {x : Bytes × List RowEntry}, x ∈ order → x.1≠g'.1 := fun hx he =>
      hnd.1 (he ▸ List.mem_map_of_mem hx)
    have hsplit : ∀ e, e ∈ (vacuumed o (g'::order)).take n ↔
        e ∈ (vacuumGroup o g'.2).take n ∨ e ∈ (vacuumed o order).take (n-(vacuumGroup o g'.2).length) := by
      intro e
      rw [vacuumed,List.flatMap_cons,List.take_append,List.mem_append]
      rfl
    obtain rfl | hg := List.mem_cons.mp hg
    · refine ⟨n,fun e he => (hsplit e).trans (or_iff_left fun hm => ?_)⟩
      obtain ⟨x,hx,hex⟩ := List.mem_flatMap.mp (List.mem_of_mem_take hm)
      exact hrest hx ((hcode x (List.mem_cons_of_mem _ hx) e (vacuumGroup_subset hex)).symm.trans he)
    · obtain ⟨i,hi⟩ := ih hnd.2 (fun x hx =>
        hcode x (List.mem_cons_of_mem _ hx)) hg (n-(vacuumGroup o g'.2).length)
      refine ⟨i,fun e he => (hsplit e).trans ((or_iff_right fun hm => ?_).trans (hi e he))⟩
      have := hcode g' (List.mem_cons_self ..) e (vacuumGroup_subset (List.mem_of_mem_take hm))
      exact hrest hg (he.symm.trans this)

end Groups

section Vacuum
variable {schema : Schema} {st : Entries} {pk : List KeyValue} {o : UInt64}
  {order : List (Bytes × List RowEntry)} {n : ℕ}

lemma mem_vacuum {x : Bytes × Bytes} :
    x ∈ vacuum o order n st ↔ x ∈ st ∧ ∀ e ∈ (vacuumed o order).take n, x.1≠e.keyBytes := by
  unfold vacuum
  induction (vacuumed o order).take n generalizing st with
  | nil => simp
  | cons e l ih =>
    rw [List.foldl_cons,ih,Assoc.mem_erase,List.forall_mem_cons,and_assoc]

lemma vacuum_sublist (o : UInt64) (order : List (Bytes × List RowEntry)) (n : ℕ) (st : Entries) :
    List.Sublist (vacuum o order n st) st := by
  unfold vacuum
  induction (vacuumed o order).take n generalizing st with
  | nil => exact List.Sublist.refl st
  | cons e l ih => exact (ih _).trans List.filter_sublist

def groupOf (schema : Schema) (st : Entries) (pk : List KeyValue) : List RowEntry :=
  (tableRows schema st).filter (·.pkBytes = rowCode schema.tableID pk)

def entryOf (schema : Schema) (pk : List KeyValue) (x : UInt64 × Bytes) : RowEntry :=
  ⟨rowKey schema pk x.1,x.1,x.2⟩

lemma entryOf_injective : Function.Injective (entryOf schema pk) := by
  intro x y h
  obtain ⟨-,hv,hd⟩ := RowEntry.mk.inj h
  exact Prod.ext hv hd

lemma mem_groupOf {e : RowEntry} (hr : Readable schema pk) :
    e ∈ groupOf schema st pk ↔ ∃ x ∈ versionsOf schema st pk, entryOf schema pk x = e := by
  rw [groupOf,List.mem_filter,decide_eq_true_eq]
  constructor
  · rintro ⟨hm,hc⟩
    obtain ⟨hk,hv⟩ := (mem_tableRows_of_code hr hc).mp hm
    exact ⟨_,hv,by rw [entryOf,← hk]⟩
  · rintro ⟨x,hx,rfl⟩
    have hc : (entryOf schema pk x).pkBytes = rowCode schema.tableID pk := pkBytes_of_rowKey rfl
    exact ⟨(mem_tableRows_of_code hr hc).mpr ⟨rfl,hx⟩,hc⟩

lemma mem_of_entryOf_mem {x : UInt64 × Bytes} (hr : Readable schema pk)
    (h : entryOf schema pk x ∈ groupOf schema st pk) :
    x ∈ versionsOf schema st pk := by
  obtain ⟨y,hy,he⟩ := (mem_groupOf hr).mp h
  rwa [← entryOf_injective he]

lemma entryOf_mem_vacuumGroup (hs : Assoc.Sorted st) {x : UInt64 × Bytes}
    (hx : x ∈ versionsOf schema st pk) :
    entryOf schema pk x ∈ vacuumGroup o (groupOf schema st pk) ↔ x.1 ≤ o ∧
      ∃ h, latestOf o (versionsOf schema st pk) = some h ∧
        (isTombstone h.2 = true ∧ (∀ z ∈ versionsOf schema st pk, z.1 ≤ o) ∨
          isTombstone h.2 = false ∧ x.1 < h.1) := by
  have hr := (mem_versionsOf.mp hx).1
  have hrow : ∀ {e}, e ∈ groupOf schema st pk → e ∈ tableRows schema st ∧
    e.pkBytes = rowCode schema.tableID pk := by
    intro e he
    simpa [groupOf] using he
  have hinj : ∀ a ∈ groupOf schema st pk, ∀ b ∈ groupOf schema st pk, a.version = b.version → a = b :=
    fun a ha b hb hv => eq_of_tableRows hs (hrow ha).1 (hrow hb).1 ((hrow ha).2.trans (hrow hb).2.symm) hv
  have hforall : ∀ {P : RowEntry → Prop}, (∀ e ∈ groupOf schema st pk, P e) ↔
      ∀ z ∈ versionsOf schema st pk, P (entryOf schema pk z) := by
    intro P
    simp only [mem_groupOf hr,forall_exists_index,and_imp,forall_apply_eq_imp_iff₂]
  rw [mem_vacuumGroup hinj]
  simp only [hforall]
  constructor
  · rintro ⟨-,hxo,h,hh,hho,hmax,hcase⟩
    obtain ⟨z,hz,rfl⟩ := (mem_groupOf hr).mp hh
    exact ⟨hxo,z,(latestOf_eq_some (sorted_versionsOf hs pk)).mpr ⟨hz,hho,hmax⟩,hcase⟩
  · rintro ⟨hxo,z,hl,hcase⟩
    obtain ⟨hz,hzo,hmax⟩ := (latestOf_eq_some (sorted_versionsOf hs pk)).mp hl
    exact ⟨(mem_groupOf hr).mpr ⟨x,hx,rfl⟩,hxo,entryOf schema pk z,(mem_groupOf hr).mpr ⟨z,hz,rfl⟩,
      hzo,hmax,hcase⟩

lemma rowGroups_codes (horder : order.Perm (rowGroups schema st)) :
    (order.map Prod.fst).Nodup ∧ ∀ g ∈ order, g.2 = (tableRows schema st).filter (·.pkBytes = g.1) := by
  constructor
  · rw [(horder.map Prod.fst).nodup_iff,rowGroups,List.map_map]
    simpa [Function.comp_def] using List.nodup_dedup _
  · intro g hg
    obtain ⟨p,-,rfl⟩ := List.mem_map.mp (horder.mem_iff.mp hg)
    rfl

lemma entryOf_mem_take (hs : Assoc.Sorted st) (horder : order.Perm (rowGroups schema st))
    {x : UInt64 × Bytes}
    (hx : x ∈ versionsOf schema st pk) :
    entryOf schema pk x ∈ (vacuumed o order).take n ↔
      ∃ e ∈ (vacuumed o order).take n, rowKey schema pk x.1 = e.keyBytes := by
  constructor
  · exact fun h => ⟨_,h,rfl⟩
  · rintro ⟨e,he,hk⟩
    obtain ⟨g,hg,heg⟩ := List.mem_flatMap.mp (List.mem_of_mem_take he)
    have hrow : e ∈ tableRows schema st := by
      have hm := vacuumGroup_subset heg
      rw [(rowGroups_codes horder).2 g hg] at hm
      exact (List.mem_filter.mp hm).1
    have hread := (mem_versionsOf.mp hx).1
    have hc : e.pkBytes = rowCode schema.tableID pk := by rw [RowEntry.pkBytes,← hk,extractPKPrefix_rowKey]
    obtain ⟨hk',-⟩ := (mem_tableRows_of_code hread hc).mp hrow
    have hv := (rowKey_injective hread hread (hk.trans hk')).2
    have hmem : entryOf schema pk x ∈ tableRows schema st := mem_tableRows.mpr ⟨pk,rfl,hx⟩
    have hcode : (entryOf schema pk x).pkBytes = e.pkBytes := (pkBytes_of_rowKey rfl).trans hc.symm
    rwa [eq_of_tableRows hs hmem hrow hcode hv]

lemma mem_versionsOf_vacuum (hs : Assoc.Sorted st) (horder : order.Perm (rowGroups schema st))
    {x : UInt64 × Bytes} :
    x ∈ versionsOf schema (vacuum o order n st) pk ↔
      x ∈ versionsOf schema st pk ∧ entryOf schema pk x ∉ (vacuumed o order).take n := by
  rw [mem_versionsOf,mem_vacuum,← and_assoc,← mem_versionsOf]
  refine and_congr_right fun hx => ?_
  rw [entryOf_mem_take hs horder hx]
  simp only [not_exists,not_and]

lemma groupOf_mem_order (horder : order.Perm (rowGroups schema st)) {x : UInt64 × Bytes}
    (hx : x ∈ versionsOf schema st pk) :
    (rowCode schema.tableID pk,groupOf schema st pk) ∈ order := by
  refine horder.mem_iff.mpr (List.mem_map.mpr ⟨_,
    List.mem_dedup.mpr (List.mem_map.mpr ⟨entryOf schema pk x,?_,?_⟩),rfl⟩)
  · exact mem_tableRows.mpr ⟨pk,rfl,hx⟩
  · exact pkBytes_of_rowKey rfl

lemma versionsOf_vacuum (hs : Assoc.Sorted st) (horder : order.Perm (rowGroups schema st)) (o : UInt64)
    (pk : List KeyValue) (n : ℕ) :
    ∃ i, ∀ x, x ∈ versionsOf schema (vacuum o order n st) pk ↔
      x ∈ versionsOf schema st pk ∧
        entryOf schema pk x ∉ (vacuumGroup o (groupOf schema st pk)).take i := by
  by_cases hne : ∃ x, x ∈ versionsOf schema st pk
  · obtain ⟨x,hx⟩ := hne
    obtain ⟨hnd,hgroups⟩ := rowGroups_codes horder
    have hcode : ∀ g ∈ order, ∀ e ∈ g.2, e.pkBytes = g.1 := fun g hg e he => by
      rw [hgroups g hg] at he
      simpa using (List.mem_filter.mp he).2
    obtain ⟨i,hi⟩ := mem_take_vacuumed (o := o) hnd hcode (groupOf_mem_order horder hx) n
    exact ⟨i,fun y => (mem_versionsOf_vacuum hs horder).trans (and_congr_right fun _ =>
      not_congr (hi _ (pkBytes_of_rowKey rfl)))⟩
  · have hempty : ∀ x, x ∉ versionsOf schema st pk := fun x hx => hne ⟨x,hx⟩
    exact ⟨0,fun x => (mem_versionsOf_vacuum hs horder).trans (by simp [hempty])⟩

end Vacuum

section Calls
variable {t : Table} {lim : Limits} {st : Entries}

lemma of_validate {pkValues : List Val} {tx : UInt64}
    (h : validateMonotonicTx t.toSchema st pkValues tx = .ok ()) :
    tx≠0 ∧ ∃ pk, pkKey t.toSchema pkValues = .ok pk := by
  rw [validateMonotonicTx,encodeRowVersionPrefix_eq] at h
  split at h
  · cases h
  · cases hk : pkKey t.toSchema pkValues with
    | error e =>
      simp only [hk,Except.map] at h
      cases h
    | ok pk => exact ⟨‹_›,pk,rfl⟩

/-- Everything that a call does with an entry: it adds a version of a key after it has checked it. -/
structure Adds (t : Table) (st : Entries) (pkValues : List Val) (pk : List KeyValue) (tx : UInt64)
    (r : Option (List Val))
    (d : Bytes) : Prop where
  key : pkKey t.toSchema pkValues = .ok pk
  monotonic : validateMonotonicTx t.toSchema st pkValues tx = .ok ()
  follows : r = none → (findVisibleRow t.toSchema st pkValues tx).isOk = true
  stores : Stores t.toSchema r d

lemma setEntry_effect {entry : Entries → Except Err (Bytes × Bytes)} {pkValues : List Val} (tx : UInt64)
    (r : Option (List Val)) (hentry : ∀ k d, entry st = .ok (k,d) →
      validateMonotonicTx t.toSchema st pkValues tx = .ok () ∧
      (r = none → (findVisibleRow t.toSchema st pkValues tx).isOk = true) ∧
        encodeRow t.toSchema r = .ok d ∧
      encodeRowKeyFromPK t.toSchema pkValues tx = .ok k) :
    (setEntry lim entry st).2 = st ∨
      ∃ pk tx r d, Adds t st pkValues pk tx r d ∧
        (setEntry lim entry st).2 = Assoc.put (rowKey t.toSchema pk tx) d st := by
  rw [setEntry]
  cases he : entry st with
  | error e => exact .inl rfl
  | ok kd =>
    obtain ⟨k,d⟩ := kd
    obtain ⟨hv,hf,hd,hk⟩ := hentry k d he
    obtain ⟨-,pk,hpk⟩ := of_validate hv
    rw [encodeRowKeyFromPK_eq hpk] at hk
    obtain rfl := Except.ok.inj hk
    simp only [storeSet]
    split
    · rename_i hacc
      exact .inr ⟨pk,tx,r,d,⟨hpk,hv,hf,stores_of_encodeRow hd (lim.small hacc)⟩,rfl⟩
    · exact .inl rfl

lemma call_effect (lim : Limits) (c : TableCall) : (c.step t.toSchema lim st).2 = st ∨
    ∃ pk tx r d, Adds t st (c.keyOf t.toSchema) pk tx r d ∧
      (c.step t.toSchema lim st).2 = Assoc.put (rowKey t.toSchema pk tx) d st := by
  cases c with
  | insert tx values =>
    refine setEntry_effect tx (some values) fun k d h => ?_
    obtain ⟨-,hv,-,hd,hk⟩ := insertEntry_ok_iff.mp h
    exact ⟨hv,nofun,hd,hk⟩
  | update tx pkValues newValues =>
    refine setEntry_effect tx (some newValues) fun k d h => ?_
    obtain ⟨-,hv,-,-,hd,hk⟩ := updateEntry_ok_iff.mp h
    exact ⟨hv,nofun,hd,hk⟩
  | delete tx pkValues =>
    refine setEntry_effect tx none fun k d h => ?_
    obtain ⟨hv,hf,hd,hk⟩ := deleteEntry_ok_iff.mp h
    exact ⟨hv,fun _ => hf,hd,hk⟩
  | get tx pkValues => exact .inl rfl

lemma Sound.of_sublist {schema : Schema} {st' : Entries} (hs : Sound schema st) (h : List.Sublist st' st) :
    Sound schema st' where
  sorted := hs.sorted.sublist (h.map _)
  versioned he hc := hs.versioned (h.subset he) hc
  stored he hc := hs.stored (h.subset he) hc

theorem Reached.sound (h : Reached t st) : Sound t.toSchema st := by
  induction h with
  | start hv => exact hv.sound
  | call _ lim c ih =>
    obtain he | ⟨pk,tx,r,d,ha,he⟩ := call_effect lim c
    · rwa [he]
    · rw [he]
      exact sound_put ih (of_validate ha.monotonic).1 ha.stores
  | vacuum _ o _ n ih => exact ih.of_sublist (vacuum_sublist ..)

def Founded (schema : Schema) (st : Entries) : Prop :=
  ∀ pk, ∀ x ∈ versionsOf schema st pk, isTombstone x.2 = true → ∃ y ∈ versionsOf schema st pk,
    isTombstone y.2 = false ∧ y.1 < x.1 ∧ ∀ z ∈ versionsOf schema st pk, z.1 < x.1 → z.1 ≤ y.1

variable {pkValues : List Val} {pk pk' : List KeyValue} {tx : UInt64} {r : Option (List Val)} {d : Bytes}

lemma founded_vacant (h : Vacant t.toSchema st) : Founded t.toSchema st := fun pk x hx => by
  rw [h.versionsOf_eq] at hx
  exact absurd hx List.not_mem_nil

lemma Adds.versionsOf_eq (hb : .bytes ∉ t.pkKinds) (hs : Sound t.toSchema st)
    (ha : Adds t st pkValues pk tx r d)
    (hr : Readable t.toSchema pk') (hcode : rowCode t.tableID pk' = rowCode t.tableID pk) :
    Addresses t.toSchema pkValues pk' ∧ (∀ x ∈ versionsOf t.toSchema st pk', x.1 < tx) ∧
      versionsOf t.toSchema (Assoc.put (rowKey t.toSchema pk tx) d st) pk' =
        versionsOf t.toSchema st pk'++[(tx,d)] := by
  have haddr : Addresses t.toSchema pkValues pk' := ⟨hr,pk,ha.key,hcode.symm⟩
  have hbefore := ((validateMonotonicTx_ok_iff hb hs haddr).mp ha.monotonic).2
  have hkey : rowKey t.toSchema pk tx = rowKey t.toSchema pk' tx := by rw [rowKey,rowKey,hcode]
  refine ⟨haddr,hbefore,?_⟩
  rw [hkey,versionsOf_put_same hs.sorted hr]
  have hnew := Assoc.put_new (v := d) hbefore (fun e he => absurd he List.not_mem_nil)
  rwa [List.append_nil] at hnew

lemma founded_adds (hb : .bytes ∉ t.pkKinds) (hs : Sound t.toSchema st) (hf : Founded t.toSchema st)
    (ha : Adds t st pkValues pk tx r d) :
    Founded t.toSchema (Assoc.put (rowKey t.toSchema pk tx) d st) := by
  intro pk'
  by_cases hc : Readable t.toSchema pk' ∧ rowCode t.tableID pk' = rowCode t.tableID pk
  · obtain ⟨haddr,hbefore,hv⟩ := ha.versionsOf_eq hb hs hc.1 hc.2
    rw [hv]
    simp only [List.mem_append,List.mem_singleton]
    intro x hx htomb
    obtain hx | rfl := hx
    · obtain ⟨y,hy,hyn,hyx,hmax⟩ := hf pk' x hx htomb
      refine ⟨y,.inl hy,hyn,hyx,fun z hz hzx => ?_⟩
      obtain hz | rfl := hz
      · exact hmax z hz hzx
      · exact absurd (hbefore x hx) hzx.asymm
    · -- the tombstone follows the row that was visible
      have hnone : r = none := by
        have := ha.stores.isTombstone_eq
        rw [htomb] at this
        exact Option.isNone_iff_eq_none.mp this.symm
      have hok := ha.follows hnone
      rw [findVisibleRow_eq hb hs haddr] at hok
      cases hl : latestOf tx (versionsOf t.toSchema st pk') with
      | none => simp [hl,Except.isOk,Except.toBool] at hok
      | some y =>
        obtain ⟨hy,hyt,hmax⟩ := (latestOf_eq_some (sorted_versionsOf hs.sorted pk')).mp hl
        obtain ⟨hread,hm⟩ := mem_versionsOf.mp hy
        obtain ⟨ry,hst⟩ := hs.stored hm (hread y.1)
        refine ⟨y,.inl hy,?_,hbefore y hy,fun z hz hzx => ?_⟩
        · rw [hst.isTombstone_eq]
          cases ry with
          | none => simp [hl,hst.rowOf_eq,Except.isOk,Except.toBool] at hok
          | some _ => rfl
        · obtain hz | rfl := hz
          · exact hmax z hz hzx.le
          · exact absurd hzx (lt_irrefl _)
  · rw [versionsOf_put_other hs.sorted fun hr hcode => hc ⟨hr,hcode⟩]
    exact hf pk'

lemma protected_of_deleted {schema : Schema} {o : UInt64} (hs : Assoc.Sorted st) {i : ℕ}
    {x y : UInt64 × Bytes}
    (hx : x ∈ versionsOf schema st pk)
    (hleft : entryOf schema pk x ∉ (vacuumGroup o (groupOf schema st pk)).take i)
    (hy : entryOf schema pk y ∈ (vacuumGroup o (groupOf schema st pk)).take i) (hyx : y.1 < x.1) :
    ∃ h ∈ versionsOf schema st pk, isTombstone h.2 = false ∧ y.1 < h.1 ∧ h.1 ≤ x.1 := by
  have hmemx : entryOf schema pk x ∉ vacuumGroup o (groupOf schema st pk) := by
    intro hm
    have hdesc := vacuumGroup_descending o (groupOf schema st pk)
    rw [← List.take_append_drop i (vacuumGroup o (groupOf schema st pk))] at hdesc hm
    have hdrop := (List.mem_append.mp hm).resolve_left hleft
    exact absurd ((List.pairwise_append.mp hdesc).2.2 _ hy _ hdrop) (not_le.mpr hyx)
  have hmemy := List.mem_of_mem_take hy
  have hyv := mem_of_entryOf_mem (mem_versionsOf.mp hx).1 (vacuumGroup_subset hmemy)
  rw [entryOf_mem_vacuumGroup hs hx] at hmemx
  obtain ⟨hyo,h,hl,hcase⟩ := (entryOf_mem_vacuumGroup hs hyv).mp hmemy
  obtain ⟨hh,hho,hmax⟩ := (latestOf_eq_some (sorted_versionsOf hs pk)).mp hl
  obtain ⟨htomb,hall⟩ | ⟨hn,hlt⟩ := hcase
  · exact absurd ⟨hall x hx,h,hl,.inl ⟨htomb,hall⟩⟩ hmemx
  · refine ⟨h,hh,hn,hlt,not_lt.mp fun hxh => hmemx ⟨hxh.le.trans hho,h,hl,.inr ⟨hn,hxh⟩⟩⟩

lemma founded_vacuum {schema : Schema} {o : UInt64} {order : List (Bytes × List RowEntry)} {n : ℕ}
    (hs : Assoc.Sorted st)
    (hf : Founded schema st) (horder : order.Perm (rowGroups schema st)) :
    Founded schema (vacuum o order n st) := by
  intro pk
  obtain ⟨i,hi⟩ := versionsOf_vacuum hs horder o pk n
  simp only [hi]
  rintro x ⟨hx,hleft⟩ htomb
  obtain ⟨y,hy,hyn,hyx,hmax⟩ := hf pk x hx htomb
  refine ⟨y,⟨hy,fun hdel => ?_⟩,hyn,hyx,fun z hz => hmax z hz.1⟩
  obtain ⟨h,hh,hhn,hyh,hhx⟩ := protected_of_deleted hs hx hleft hdel hyx
  obtain hlt | heq := lt_or_eq_of_le hhx
  · exact absurd (hmax h hh hlt) (not_le.mpr hyh)
  · obtain rfl := (sorted_versionsOf hs pk).eq_of_key hh hx heq
    rw [htomb] at hhn
    cases hhn

theorem Reached.founded (hb : .bytes ∉ t.pkKinds) (h : Reached t st) : Founded t.toSchema st := by
  induction h with
  | start hv => exact founded_vacant hv
  | call h lim c ih =>
    obtain he | ⟨pk,tx,r,d,ha,he⟩ := call_effect lim c
    · rwa [he]
    · rw [he]
      exact founded_adds hb h.sound ih ha
  | vacuum h o horder n ih => exact founded_vacuum h.sound.sorted ih horder

end Calls
end Plomvix.SQL
