import Plomvix.SQL.History

/-! What `Vacuum` leaves of each key, and what its readers see while it runs. -/
namespace Plomvix.SQL
open Lib

def KeyValue.toVal : KeyValue → Val
  | .uint64 n => .uint64 n
  | .int64 i => .int64 i
  | .string s => .string s
  | .bytes b => .bytes b

section Values
variable {pk : List KeyValue}

lemma keyValues_toVal (pk : List KeyValue) :
    keyValues (pk.map KeyValue.kind) (pk.map KeyValue.toVal) = .ok pk := by
  induction pk with
  | nil => rfl
  | cons v pk ih =>
    have hv : anyToKeyValue v.kind v.toVal = .ok v := by cases v <;> rfl
    rw [List.map_cons,List.map_cons,keyValues,hv]
    simp only
    rw [ih]

lemma pkKey_toVal {schema : Schema} (h : pk.map KeyValue.kind = schema.pkKinds) :
    pkKey schema (pk.map KeyValue.toVal) = .ok pk := by
  have hlen : pk.length = schema.pkIndices.length := by
    have := congrArg List.length h
    simpa [Schema.pkKinds] using this
  rw [pkKey,if_neg (by simp [hlen]),← h,keyValues_toVal]

lemma nulFree_toVal (h : ∀ v ∈ pk, v.Delimited) : NulFree (pk.map KeyValue.toVal) := by
  intro s hs
  obtain ⟨v,hv,he⟩ := List.mem_map.mp hs
  cases v with
  | string s' =>
    obtain rfl := Val.string.inj he
    exact h _ hv
  | _ => cases he

end Values

section Rows
variable {t : Table} {st : Entries} {pk : List KeyValue} {pkValues : List Val} {o tx : UInt64}
  {x : UInt64 × Bytes}

lemma Sound.rowOf_isSome {schema : Schema} (hs : Sound schema st) (hx : x ∈ versionsOf schema st pk) :
    (rowOf schema x.2).isSome = !isTombstone x.2 := by
  obtain ⟨hr,hm⟩ := mem_versionsOf.mp hx
  obtain ⟨r,hst⟩ := hs.stored hm (hr x.1)
  rw [hst.rowOf_eq,hst.isTombstone_eq]
  cases r <;> rfl

lemma get_of_no_key {e : Err} (h : pkKey t.toSchema pkValues = .error e) (st : Entries) (tx : UInt64) :
    get t.toSchema st tx pkValues = .error e := by
  rw [get,findVisibleRow,encodeRowVersionPrefix_eq,h]
  rfl

lemma get_congr {st' : Entries} (hb : .bytes ∉ t.pkKinds) (hs : Sound t.toSchema st)
    (hs' : Sound t.toSchema st')
    (ha : Addresses t.toSchema pkValues pk)
    (h : latestOf tx (versionsOf t.toSchema st' pk) = latestOf tx (versionsOf t.toSchema st pk)) :
    get t.toSchema st' tx pkValues = get t.toSchema st tx pkValues := by
  rw [get,get,findVisibleRow_eq hb hs' ha,findVisibleRow_eq hb hs ha,h]

/-- The newest version of the key is a tombstone that counts as old. -/
def EndsInOldTombstone (schema : Schema) (st : Entries) (o : UInt64) (pk : List KeyValue) : Prop :=
  ∃ x ∈ versionsOf schema st pk, isTombstone x.2 = true ∧ x.1 ≤ o ∧
    ∀ y ∈ versionsOf schema st pk, y.1 ≤ x.1

lemma latestOf_vacuum (hs : Sound t.toSchema st) {order : List (Bytes × List RowEntry)}
    (horder : order.Perm (rowGroups t.toSchema st)) (n : ℕ) (htx : o < tx)
    (hpk : ¬EndsInOldTombstone t.toSchema st o pk) :
    latestOf tx (versionsOf t.toSchema (vacuum o order n st) pk) =
      latestOf tx (versionsOf t.toSchema st pk) := by
  obtain ⟨i,hi⟩ := versionsOf_vacuum hs.sorted horder o pk n
  have hs' := hs.of_sublist (vacuum_sublist o order n st)
  refine latestOf_of_covered (sorted_versionsOf hs.sorted pk) (sorted_versionsOf hs'.sorted pk)
    (fun x hx => ((hi x).mp hx).1) fun x hx hn => ?_
  have hdel : entryOf t.toSchema pk x ∈ vacuumGroup o (groupOf t.toSchema st pk) :=
    List.mem_of_mem_take (not_not.mp fun h => hn ((hi x).mpr ⟨hx,h⟩))
  obtain ⟨hxo,h,hl,hcase⟩ := (entryOf_mem_vacuumGroup hs.sorted hx).mp hdel
  obtain ⟨hh,hho,hmax⟩ := (latestOf_eq_some (sorted_versionsOf hs.sorted pk)).mp hl
  obtain ⟨htomb,hall⟩ | ⟨hrow,hlt⟩ := hcase
  · exact absurd ⟨h,hh,htomb,hho,fun y hy => hmax y hy (hall y hy)⟩ hpk
  · refine ⟨h,(hi h).mpr ⟨hh,fun hm => ?_⟩,hlt,(hho.trans_lt htx).le⟩
    obtain ⟨-,h',hl',hcase'⟩ := (entryOf_mem_vacuumGroup hs.sorted hh).mp (List.mem_of_mem_take hm)
    obtain rfl := Option.some.inj (hl.symm.trans hl')
    obtain ⟨htomb,-⟩ | ⟨-,hlt'⟩ := hcase'
    · rw [hrow] at htomb
      cases htomb
    · exact lt_irrefl _ hlt'

lemma first_vacuumed (hs : Sound t.toSchema st) (hx : x ∈ versionsOf t.toSchema st pk)
    (htomb : isTombstone x.2 = true)
    (hxo : x.1 ≤ o) (hnewest : ∀ y ∈ versionsOf t.toSchema st pk, y.1 ≤ x.1) :
    ∃ order, order.Perm (rowGroups t.toSchema st) ∧
      (vacuumed o order).take 1 = [entryOf t.toSchema pk x] := by
  have hg := groupOf_mem_order (List.Perm.refl (rowGroups t.toSchema st)) hx
  have hhead := (entryOf_mem_vacuumGroup hs.sorted hx).mpr ⟨hxo,x,
    (latestOf_eq_some (sorted_versionsOf hs.sorted pk)).mpr
    ⟨hx,hxo,fun y hy _ => hnewest y hy⟩,.inl ⟨htomb,fun z hz => (hnewest z hz).trans hxo⟩⟩
  refine ⟨_,(List.perm_cons_erase hg).symm,?_⟩
  rw [vacuumed,List.flatMap_cons]
  cases hv : vacuumGroup o (groupOf t.toSchema st pk) with
  | nil => simp [hv] at hhead
  | cons e rest =>
    have hr := (mem_versionsOf.mp hx).1
    have he : e ∈ groupOf t.toSchema st pk :=
      vacuumGroup_subset (hv ▸ List.mem_cons_self : e ∈ vacuumGroup o _)
    obtain ⟨z,hz,rfl⟩ := (mem_groupOf hr).mp he
    have hdesc := vacuumGroup_descending o (groupOf t.toSchema st pk)
    rw [hv] at hdesc hhead
    have hzx : z = x := by
      obtain heq | hm := List.mem_cons.mp hhead
      · exact entryOf_injective heq.symm
      · exact (sorted_versionsOf hs.sorted pk).eq_of_key hz hx
          (le_antisymm (hnewest z hz) ((List.pairwise_cons.mp hdesc).1 _ hm))
    simp [hzx]

/-- What readers after `olderThan` see changes at no point exactly when no key ends in an old tombstone. -/
theorem keeps_readers_iff (hb : .bytes ∉ t.pkKinds) (h : Reached t st) (htx : o < tx) :
    (∀ order, order.Perm (rowGroups t.toSchema st) → ∀ n pkValues, NulFree pkValues →
      get t.toSchema (vacuum o order n st) tx pkValues = get t.toSchema st tx pkValues) ↔
      ∀ pk, ¬EndsInOldTombstone t.toSchema st o pk := by
  constructor
  · rintro hsafe pk ⟨x,hx,htomb,hxo,hnewest⟩
    obtain ⟨y,hy,hyrow,hyx,hmax⟩ := h.founded hb pk x hx htomb
    obtain ⟨order,horder,hfirst⟩ := first_vacuumed h.sound hx htomb hxo hnewest
    have hr := (mem_versionsOf.mp hx).1
    have hz := nulFree_toVal (hr.delimited hb)
    have ha := addresses_of_pkKey hb hz (pkKey_toVal hr.kinds)
    have hafter := h.vacuum o horder 1
    have hsee := hsafe order horder 1 (pk.map KeyValue.toVal) hz
    have hbefore : latestOf tx (versionsOf t.toSchema st pk) = some x :=
      (latestOf_eq_some (sorted_versionsOf h.sound.sorted pk)).mpr ⟨hx,(hxo.trans_lt htx).le,
        fun z hz _ => hnewest z hz⟩
    have hleft : ∀ z, z ∈ versionsOf t.toSchema (vacuum o order 1 st) pk ↔
      z ∈ versionsOf t.toSchema st pk ∧ z≠x := by
      intro z
      rw [mem_versionsOf_vacuum h.sound.sorted horder,hfirst,List.mem_singleton,entryOf_injective.eq_iff]
    have hnow : latestOf tx (versionsOf t.toSchema (vacuum o order 1 st) pk) = some y := by
      refine (latestOf_eq_some (sorted_versionsOf hafter.sound.sorted pk)).mpr
        ⟨(hleft y).mpr ⟨hy,?_⟩,?_,?_⟩
      · exact fun he => lt_irrefl _ (he ▸ hyx)
      · exact (hyx.le.trans hxo).trans htx.le
      · intro z hz' _
        obtain ⟨hzm,hzx⟩ := (hleft z).mp hz'
        refine hmax z hzm (lt_of_le_of_ne (hnewest z hzm) fun he => hzx ?_)
        exact (sorted_versionsOf h.sound.sorted pk).eq_of_key hzm hx he
    have hrowx := h.sound.rowOf_isSome hx
    have hrowy := h.sound.rowOf_isSome hy
    rw [get,get,findVisibleRow_eq hb hafter.sound ha,findVisibleRow_eq hb h.sound ha,hnow,hbefore] at hsee
    rw [htomb] at hrowx
    rw [hyrow] at hrowy
    obtain ⟨row,hrow⟩ := Option.isSome_iff_exists.mp hrowy
    have hnone : rowOf t.toSchema x.2 = none := by simpa using hrowx
    simp [hrow,hnone,Except.map] at hsee
  · intro hno order horder n pkValues hz
    cases hk : pkKey t.toSchema pkValues with
    | error e => rw [get_of_no_key hk,get_of_no_key hk]
    | ok pk =>
      exact get_congr hb h.sound (h.vacuum o horder n).sound (addresses_of_pkKey hb hz hk)
        (latestOf_vacuum h.sound horder n htx (hno pk))

end Rows

section Examples

/-- A user that was inserted, and deleted again. -/
def retired : Entries :=
  ((TableCall.delete 2 [.uint64 7]).step users.toSchema btreeLimits
    ((TableCall.insert 1 [.uint64 7,.string [65]]).step users.toSchema btreeLimits []).2).2

lemma retired_reached : Reached users retired :=
  ((Reached.start (vacant_nil _)).call btreeLimits (.insert 1 [.uint64 7,.string [65]])).call btreeLimits
    (.delete 2 [.uint64 7])

end Examples

section Reclaimed
variable {t : Table} {st : Entries} {o : UInt64} {order : List (Bytes × List RowEntry)} {n : ℕ}

lemma mem_vacuumed {schema : Schema} {pk : List KeyValue} {x : UInt64 × Bytes}
    (horder : order.Perm (rowGroups schema st))
    (hx : x ∈ versionsOf schema st pk) :
    entryOf schema pk x ∈ vacuumed o order ↔
      entryOf schema pk x ∈ vacuumGroup o (groupOf schema st pk) := by
  rw [vacuumed,List.mem_flatMap]
  constructor
  · rintro ⟨g,hg,hm⟩
    have hgroup := (rowGroups_codes horder).2 g hg
    have hcode : g.1 = rowCode schema.tableID pk := by
      have h := vacuumGroup_subset hm
      rw [hgroup,List.mem_filter,decide_eq_true_eq] at h
      exact h.2.symm.trans (pkBytes_of_rowKey rfl)
    rwa [hgroup,hcode] at hm
  · exact fun h => ⟨_,groupOf_mem_order horder hx,h⟩

lemma mem_versionsOf_vacuumed (h : Reached t st) (horder : order.Perm (rowGroups t.toSchema st))
    (hn : (vacuumed o order).length ≤ n) {pk : List KeyValue} {x : UInt64 × Bytes} :
    x ∈ versionsOf t.toSchema (vacuum o order n st) pk ↔ x ∈ versionsOf t.toSchema st pk ∧
      entryOf t.toSchema pk x ∉ vacuumGroup o (groupOf t.toSchema st pk) := by
  rw [mem_versionsOf_vacuum h.sound.sorted horder,List.take_of_length_le hn]
  exact and_congr_right fun hx => not_congr (mem_vacuumed horder hx)

/-- The versions that the store has under the code of a key, whether or not the code can be read back. -/
def storedVersions (schema : Schema) (st : Entries) (pk : List KeyValue) : List (UInt64 × Bytes) :=
  st.filterMap fun e =>
    if extractPKPrefix e.1 = rowCode schema.tableID pk then
      some (getUint64 (e.1.drop (e.1.length-8)),e.2) else none

/-- `DecodeTableRowKey` accepts the code of the key. With bytes in a column before the last one it
does not. -/
def CodeReadable (schema : Schema) (pk : List KeyValue) : Prop :=
  ∃ pk', Readable schema pk' ∧ rowCode schema.tableID pk' = rowCode schema.tableID pk

section Stored
variable {schema : Schema} {pk pk' : List KeyValue} {x : UInt64 × Bytes}

lemma eq_rowKey {k : Bytes} (h : extractPKPrefix k = rowCode schema.tableID pk) :
    k = rowKey schema pk (getUint64 (k.drop (k.length-8))) := by
  have hcode : 9 ≤ (rowCode schema.tableID pk).length := by simp [rowCode,tablePrefix]
  rw [extractPKPrefix] at h
  split at h
  · rw [← h] at hcode
    omega
  · rw [rowKey,← h,be64_getUint64 (by rw [List.length_drop]; omega),
      List.take_of_length_le (l := k.drop _) (by rw [List.length_drop]; omega),List.take_append_drop]

lemma mem_storedVersions : x ∈ storedVersions schema st pk ↔ (rowKey schema pk x.1,x.2) ∈ st := by
  simp only [storedVersions,List.mem_filterMap,Option.ite_none_right_eq_some,Option.some.injEq]
  constructor
  · rintro ⟨e,he,hcode,rfl⟩
    rwa [← eq_rowKey hcode]
  · intro hm
    refine ⟨_,hm,extractPKPrefix_rowKey ..,?_⟩
    rw [rowKey,List.length_append,be64_length,Nat.add_sub_cancel,List.drop_left,getUint64_be64]

lemma sorted_storedVersions (hs : Assoc.Sorted st) (pk : List KeyValue) :
    Assoc.Sorted (storedVersions schema st pk) := by
  refine List.pairwise_map.mpr (List.Pairwise.filterMap _ ?_ (List.pairwise_map.mp hs))
  intro e e' hlt x hx y hy
  simp only [Option.ite_none_right_eq_some,Option.some.injEq] at hx hy
  obtain ⟨hcode,rfl⟩ := hx
  obtain ⟨hcode',rfl⟩ := hy
  rw [eq_rowKey hcode,eq_rowKey hcode',rowKey,rowKey,append_lt_append_iff] at hlt
  exact be64_lt_iff.mp hlt

lemma storedVersions_eq (hs : Assoc.Sorted st) (hr : Readable schema pk')
    (hcode : rowCode schema.tableID pk' = rowCode schema.tableID pk) :
    storedVersions schema st pk = versionsOf schema st pk' := by
  refine (sorted_storedVersions hs pk).ext (sorted_versionsOf hs pk') fun x => ?_
  rw [mem_storedVersions,mem_versionsOf,and_iff_right hr,rowKey,rowKey,hcode]

lemma mem_storedVersions_vacuum (horder : order.Perm (rowGroups schema st))
    (hpk : ¬CodeReadable schema pk) :
    x ∈ storedVersions schema (vacuum o order n st) pk ↔ x ∈ storedVersions schema st pk := by
  rw [mem_storedVersions,mem_storedVersions,mem_vacuum]
  refine and_iff_left fun e he hk => hpk ?_
  obtain ⟨g,hg,heg⟩ := List.mem_flatMap.mp (List.mem_of_mem_take he)
  have hrow := vacuumGroup_subset heg
  rw [(rowGroups_codes horder).2 g hg] at hrow
  obtain ⟨pk',hkey,hm⟩ := mem_tableRows.mp (List.mem_filter.mp hrow).1
  refine ⟨pk',(mem_versionsOf.mp hm).1,?_⟩
  rw [← pkBytes_of_rowKey hkey,RowEntry.pkBytes,← hk,extractPKPrefix_rowKey]

end Stored

lemma reclaims_readable_iff (h : Reached t st) (horder : order.Perm (rowGroups t.toSchema st))
    (hn : (vacuumed o order).length ≤ n) (pk : List KeyValue) :
    (∀ x, x ∈ versionsOf t.toSchema (vacuum o order n st) pk ↔ x ∈ versionsOf t.toSchema st pk ∧
      (o < x.1 ∨ latestOf o (versionsOf t.toSchema st pk) = some x ∧
        (rowOf t.toSchema x.2).isSome = true)) ↔
      ∀ x, latestOf o (versionsOf t.toSchema st pk) = some x → isTombstone x.2 = true →
        ∀ y ∈ versionsOf t.toSchema st pk, y.1 ≤ o := by
  have hs := h.sound
  simp only [mem_versionsOf_vacuumed h horder hn,and_congr_right_iff]
  constructor
  · intro hall x hl htomb y hy
    obtain ⟨hx,hxo,-⟩ := (latestOf_eq_some (sorted_versionsOf hs.sorted pk)).mp hl
    by_contra hyo
    have hkeep : entryOf t.toSchema pk x ∉ vacuumGroup o (groupOf t.toSchema st pk) := by
      rw [entryOf_mem_vacuumGroup hs.sorted hx]
      rintro ⟨-,z,hz,hcase⟩
      obtain rfl := Option.some.inj (hl.symm.trans hz)
      obtain ⟨-,hold⟩ | ⟨hrow,-⟩ := hcase
      · exact hyo (hold y hy)
      · rw [htomb] at hrow
        cases hrow
    obtain hlt | ⟨-,hrow⟩ := (hall x hx).mp hkeep
    · exact not_lt.mpr hxo hlt
    · rw [hs.rowOf_isSome hx,htomb] at hrow
      cases hrow
  · intro hold x hx
    rw [entryOf_mem_vacuumGroup hs.sorted hx]
    by_cases hxo : x.1 ≤ o
    · cases hl : latestOf o (versionsOf t.toSchema st pk) with
      | none => exact absurd hxo (not_le.mpr (latestOf_eq_none.mp hl x hx))
      | some z =>
        obtain ⟨hz,hzo,hmax⟩ := (latestOf_eq_some (sorted_versionsOf hs.sorted pk)).mp hl
        have hrow := hs.rowOf_isSome hz
        cases htomb : isTombstone z.2 with
        | true =>
          rw [htomb] at hrow
          refine iff_of_false (not_not.mpr ⟨hxo,z,rfl,.inl ⟨htomb,hold z hl htomb⟩⟩) ?_
          rintro (hlt | ⟨he,hx'⟩)
          · exact not_lt.mpr hxo hlt
          · rw [← Option.some.inj he,hrow] at hx'
            cases hx'
        | false =>
          rw [htomb] at hrow
          have hkeep : ¬x.1 < z.1 ↔ z = x := by
            refine ⟨fun h => ?_,fun h => h ▸ lt_irrefl _⟩
            exact (sorted_versionsOf hs.sorted pk).eq_of_key hz hx
              (le_antisymm (not_lt.mp h) (hmax x hx hxo))
          constructor
          · intro hn'
            have hzx := hkeep.mp fun hlt => hn' ⟨hxo,z,rfl,.inr ⟨htomb,hlt⟩⟩
            exact .inr ⟨congrArg some hzx,hzx ▸ hrow⟩
          · rintro (hlt | ⟨he,-⟩) ⟨-,z',hz',hcase⟩
            · exact not_lt.mpr hxo hlt
            · obtain rfl := Option.some.inj hz'
              obtain ⟨ht,-⟩ | ⟨-,hlt⟩ := hcase
              · rw [htomb] at ht
                cases ht
              · exact hkeep.mpr (Option.some.inj he) hlt
    · exact iff_of_true (fun hc => hxo hc.1) (.inl (not_le.mp hxo))

/-- What is left of a key whose code is not read is all of it: this is as it should be if there is
nothing to reclaim. -/
lemma reclaims_unread_iff (hs : Assoc.Sorted st) (horder : order.Perm (rowGroups t.toSchema st))
    {pk : List KeyValue}
    (hpk : ¬CodeReadable t.toSchema pk) :
    (∀ x, x ∈ storedVersions t.toSchema (vacuum o order n st) pk ↔ x ∈ storedVersions t.toSchema st pk ∧
      (o < x.1 ∨ latestOf o (storedVersions t.toSchema st pk) = some x ∧
        (rowOf t.toSchema x.2).isSome = true)) ↔
      ∀ x, latestOf o (storedVersions t.toSchema st pk) = some x → (rowOf t.toSchema x.2).isSome = true ∧
        ∀ y ∈ storedVersions t.toSchema st pk, y.1 ≤ o → y = x := by
  have hsorted : Assoc.Sorted (storedVersions t.toSchema st pk) := sorted_storedVersions hs pk
  simp only [mem_storedVersions_vacuum horder hpk,iff_self_and]
  constructor
  · intro hall x hl
    obtain ⟨hx,hxo,-⟩ := (latestOf_eq_some hsorted).mp hl
    refine ⟨((hall x hx).resolve_left hxo.not_gt).2,fun y hy hyo => ?_⟩
    exact (Option.some.inj (hl.symm.trans ((hall y hy).resolve_left hyo.not_gt).1)).symm
  · intro hold x hx
    by_cases hxo : o < x.1
    · exact .inl hxo
    cases hl : latestOf o (storedVersions t.toSchema st pk) with
    | none => exact absurd (latestOf_eq_none.mp hl x hx) hxo
    | some z =>
      obtain ⟨hrow,honly⟩ := hold z hl
      obtain rfl := honly x hx (not_lt.mp hxo)
      exact .inr ⟨rfl,hrow⟩

/-- A user that was inserted, deleted, and inserted again. -/
def returned : Entries :=
  ((TableCall.insert 3 [.uint64 7,.string [66]]).step users.toSchema btreeLimits retired).2

lemma returned_reached : Reached users returned :=
  retired_reached.call btreeLimits (.insert 3 [.uint64 7,.string [66]])

/-- A user that was inserted and then renamed. -/
def renamed : Entries :=
  ((TableCall.update 2 [.uint64 7] [.uint64 7,.string [66]]).step users.toSchema btreeLimits
    ((TableCall.insert 1 [.uint64 7,.string [65]]).step users.toSchema btreeLimits []).2).2

lemma renamed_reached : Reached users renamed :=
  ((Reached.start (vacant_nil _)).call btreeLimits (.insert 1 [.uint64 7,.string [65]])).call btreeLimits
    (.update 2 [.uint64 7] [.uint64 7,.string [66]])

/-- Nobody who reads after `olderThan` sees that a vacuum has gone on to the end, also of a key that
ends in an old tombstone. -/
theorem complete_keeps_readers {tx : UInt64} {pkValues : List Val} (hb : .bytes ∉ t.pkKinds)
    (h : Reached t st)
    (horder : order.Perm (rowGroups t.toSchema st)) (hn : (vacuumed o order).length ≤ n)
    (htx : o < tx) (hz : NulFree pkValues) :
    get t.toSchema (vacuum o order n st) tx pkValues = get t.toSchema st tx pkValues := by
  cases hk : pkKey t.toSchema pkValues with
  | error e => rw [get_of_no_key hk,get_of_no_key hk]
  | ok pk =>
    have ha := addresses_of_pkKey hb hz hk
    have hafter := (h.vacuum o horder n).sound
    by_cases hends : EndsInOldTombstone t.toSchema st o pk
    · obtain ⟨x,hx,htomb,hxo,hnewest⟩ := hends
      have hold : latestOf o (versionsOf t.toSchema st pk) = some x :=
        (latestOf_eq_some (sorted_versionsOf h.sound.sorted pk)).mpr ⟨hx,hxo,fun y hy _ => hnewest y hy⟩
      have hbefore : latestOf tx (versionsOf t.toSchema st pk) = some x :=
        (latestOf_eq_some (sorted_versionsOf h.sound.sorted pk)).mpr ⟨hx,(hxo.trans_lt htx).le,
          fun y hy _ => hnewest y hy⟩
      have hgone : latestOf tx (versionsOf t.toSchema (vacuum o order n st) pk) = none := by
        refine latestOf_eq_none.mpr fun y hy => ?_
        obtain ⟨hy,hstays⟩ := (mem_versionsOf_vacuumed h horder hn).mp hy
        refine absurd ((entryOf_mem_vacuumGroup h.sound.sorted hy).mpr ⟨(hnewest y hy).trans hxo,x,
          hold,.inl ⟨htomb,?_⟩⟩) hstays
        exact fun z hz => (hnewest z hz).trans hxo
      have hrow := h.sound.rowOf_isSome hx
      rw [htomb] at hrow
      have hnone : rowOf t.toSchema x.2 = none := by simpa using hrow
      rw [get,get,findVisibleRow_eq hb hafter ha,findVisibleRow_eq hb h.sound ha,hgone,hbefore]
      simp [hnone]
    · exact get_congr hb h.sound hafter ha (latestOf_vacuum h.sound horder n htx hends)

end Reclaimed
end Plomvix.SQL
