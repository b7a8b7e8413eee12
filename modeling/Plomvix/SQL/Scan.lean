import Plomvix.SQL.Vacuum

/-! `Scan` collects the visible rows of a table in the order of their keys, and its cursor passes
over the first of them. -/
namespace Plomvix.SQL
open Lib

section Newest

lemma sorted_keepNewest {g : List (Bytes × RowEntry)} (hs : Assoc.Sorted g) (e : RowEntry) :
    Assoc.Sorted (keepNewest g e) := by
  unfold keepNewest
  split
  · exact Assoc.sorted_put _ _ hs
  · split
    · exact Assoc.sorted_put _ _ hs
    · exact hs

lemma sorted_newest (l : List RowEntry) : Assoc.Sorted (l.foldl keepNewest []) := by
  induction l using List.reverseRecOn with
  | nil => exact List.Pairwise.nil
  | append_singleton l e ih =>
    rw [List.foldl_append]
    exact sorted_keepNewest ih e

lemma lookup_keepNewest (g : List (Bytes × RowEntry)) (a : RowEntry) (p : Bytes) :
    Assoc.lookup p (keepNewest g a) =
      if p = a.pkBytes then
        match Assoc.lookup p g with
        | none => some a
        | some x => if x.version < a.version then some a else some x
      else Assoc.lookup p g := by
  unfold keepNewest
  by_cases hp : p = a.pkBytes
  · subst hp
    cases hl : Assoc.lookup a.pkBytes g with
    | none => simp [Assoc.lookup_put]
    | some x =>
      by_cases hv : x.version < a.version
      · simp [hv,Assoc.lookup_put]
      · simp [hv,hl]
  · rw [if_neg hp]
    split
    · rw [Assoc.lookup_put,if_neg hp]
    · split
      · rw [Assoc.lookup_put,if_neg hp]
      · rfl

lemma lookup_newest_none {l : List RowEntry} {p : Bytes} :
    Assoc.lookup p (l.foldl keepNewest []) = none ↔ ∀ x ∈ l, x.pkBytes≠p := by
  induction l using List.reverseRecOn with
  | nil => simp [Assoc.lookup]
  | append_singleton l a ih =>
    rw [List.foldl_append,List.foldl_cons,List.foldl_nil,lookup_keepNewest,List.forall_mem_append,← ih]
    by_cases hp : p = a.pkBytes
    · rw [if_pos hp]
      cases Assoc.lookup p (l.foldl keepNewest []) with
      | none => simp [hp]
      | some x =>
        simp only
        split <;> simp
    · simp [hp,Ne.symm hp]

lemma lookup_newest {l : List RowEntry}
    (hinj : ∀ x ∈ l, ∀ y ∈ l, x.pkBytes = y.pkBytes → x.version = y.version → x = y) {p : Bytes}
    {e : RowEntry} :
    Assoc.lookup p (l.foldl keepNewest []) = some e ↔
      e ∈ l ∧ e.pkBytes = p ∧ ∀ x ∈ l, x.pkBytes = p → x.version ≤ e.version := by
  have htop : ∀ e, Assoc.lookup p (l.foldl keepNewest []) = some e →
      e ∈ l ∧ e.pkBytes = p ∧ ∀ x ∈ l, x.pkBytes = p → x.version ≤ e.version := by
    clear hinj
    induction l using List.reverseRecOn with
    | nil => simp [Assoc.lookup]
    | append_singleton l a ih =>
      rw [List.foldl_append,List.foldl_cons,List.foldl_nil,lookup_keepNewest]
      simp only [List.mem_append,List.mem_singleton]
      intro e he
      split at he
      · rename_i hp
        cases hl : Assoc.lookup p (l.foldl keepNewest []) with
        | none =>
          simp only [hl,Option.some.injEq] at he
          subst he
          refine ⟨.inr rfl,hp.symm,fun x hx hxp => ?_⟩
          obtain hx | rfl := hx
          · exact absurd hxp (lookup_newest_none.mp hl x hx)
          · exact le_rfl
        | some y =>
          obtain ⟨hy,hyp,hmax⟩ := ih y hl
          simp only [hl] at he
          split at he <;> obtain rfl := Option.some.inj he
          · rename_i hlt
            refine ⟨.inr rfl,hp.symm,fun x hx hxp => ?_⟩
            obtain hx | rfl := hx
            · exact (hmax x hx hxp).trans hlt.le
            · exact le_rfl
          · rename_i hge
            refine ⟨.inl hy,hyp,fun x hx hxp => ?_⟩
            obtain hx | rfl := hx
            · exact hmax x hx hxp
            · exact not_lt.mp hge
      · rename_i hp
        obtain ⟨hy,hyp,hmax⟩ := ih e he
        refine ⟨.inl hy,hyp,fun x hx hxp => ?_⟩
        obtain hx | rfl := hx
        · exact hmax x hx hxp
        · exact absurd hxp.symm hp
  refine ⟨htop e,?_⟩
  rintro ⟨he,hep,hmax⟩
  cases hl : Assoc.lookup p (l.foldl keepNewest []) with
  | none => exact absurd hep (lookup_newest_none.mp hl e he)
  | some y =>
    obtain ⟨hy,hyp,hmax'⟩ := htop y hl
    rw [hinj y hy e he (hyp.trans hep.symm) (le_antisymm (hmax y hy hyp) (hmax' e he hep))]

end Newest

section Rows
variable {t : Table} {st : Entries} {tx : UInt64} {order : List (Bytes × RowEntry)}

lemma mem_newestRows (hs : Assoc.Sorted st) {p : Bytes} {e : RowEntry} :
    (p,e) ∈ newestRows t.toSchema st tx ↔
    ∃ pk x, latestOf tx (versionsOf t.toSchema st pk) = some x ∧ p = rowCode t.tableID pk ∧
      e = entryOf t.toSchema pk x := by
  have hmem : ∀ x, x ∈ (tableRows t.toSchema st).filter (·.version ≤ tx) ↔
    x ∈ tableRows t.toSchema st ∧ x.version ≤ tx := by
    simp
  rw [newestRows,← Assoc.lookup_eq_some (sorted_newest _),lookup_newest]
  · simp only [hmem]
    constructor
    · rintro ⟨⟨he,hv⟩,rfl,hmax⟩
      obtain ⟨pk,hk,hx⟩ := mem_tableRows.mp he
      have hcode := pkBytes_of_rowKey hk
      refine ⟨pk,(e.version,e.data),
        (latestOf_eq_some (sorted_versionsOf hs pk)).mpr ⟨hx,hv,fun y hy hyt => ?_⟩,hcode,?_⟩
      · exact hmax (entryOf t.toSchema pk y) ⟨mem_tableRows.mpr ⟨pk,rfl,hy⟩,hyt⟩
          ((pkBytes_of_rowKey rfl).trans hcode.symm)
      · rw [entryOf,← hk]
    · rintro ⟨pk,x,hl,rfl,rfl⟩
      obtain ⟨hx,hxt,hmax⟩ := (latestOf_eq_some (sorted_versionsOf hs pk)).mp hl
      refine ⟨⟨mem_tableRows.mpr ⟨pk,rfl,hx⟩,hxt⟩,pkBytes_of_rowKey rfl,fun y hy hyp => ?_⟩
      obtain ⟨-,hyv⟩ := (mem_tableRows_of_code (mem_versionsOf.mp hx).1 hyp).mp hy.1
      exact hmax _ hyv hy.2
  · intro x hx y hy
    exact eq_of_tableRows hs ((hmem x).mp hx).1 ((hmem y).mp hy).1

lemma mem_scan_rows (hs : Sound t.toSchema st) (horder : order.Perm (newestRows t.toSchema st tx))
    {r : VisibleRow} :
    r ∈ (scan t.toSchema order).rows ↔ ∃ pk x, latestOf tx (versionsOf t.toSchema st pk) = some x ∧
      rowOf t.toSchema x.2 = some r.values ∧ r.pkBytes = rowCode t.tableID pk := by
  have hrow : ∀ {pk x}, x ∈ versionsOf t.toSchema st pk →
    (visibleRow t.toSchema (rowCode t.tableID pk,entryOf t.toSchema pk x) =
      some r ↔ rowOf t.toSchema x.2 = some r.values ∧ r.pkBytes = rowCode t.tableID pk) := by
    intro pk x hx
    obtain ⟨hread,hm⟩ := mem_versionsOf.mp hx
    obtain ⟨ro,hst⟩ := hs.stored hm (hread x.1)
    have hcode : (entryOf t.toSchema pk x).pkBytes = rowCode t.tableID pk := pkBytes_of_rowKey rfl
    have hdata : (entryOf t.toSchema pk x).data = x.2 := rfl
    rw [visibleRow,hst.rowOf_eq]
    simp only [hdata,hst.isTombstone_eq,hcode]
    rw [Stores] at hst
    simp only [hst]
    cases ro with
    | none => simp
    | some row =>
      obtain ⟨pkBytes,values⟩ := r
      simp [and_comm,eq_comm]
  rw [scan,List.mem_insertionSort,List.mem_filterMap]
  simp only [horder.mem_iff]
  constructor
  · rintro ⟨⟨p,e⟩,hg,he⟩
    obtain ⟨pk,x,hl,rfl,rfl⟩ := (mem_newestRows hs.sorted).mp hg
    obtain ⟨hx,-,-⟩ := (latestOf_eq_some (sorted_versionsOf hs.sorted pk)).mp hl
    exact ⟨pk,x,hl,(hrow hx).mp he⟩
  · rintro ⟨pk,x,hl,hr⟩
    obtain ⟨hx,-,-⟩ := (latestOf_eq_some (sorted_versionsOf hs.sorted pk)).mp hl
    exact ⟨_,(mem_newestRows hs.sorted).mpr ⟨pk,x,hl,rfl,rfl⟩,(hrow hx).mpr hr⟩

lemma scan_rows_ascending (hs : Sound t.toSchema st) (horder : order.Perm (newestRows t.toSchema st tx)) :
    (scan t.toSchema order).rows.Pairwise fun a b => a.pkBytes < b.pkBytes := by
  have htotal : Std.Total (fun a b : VisibleRow => a.pkBytes ≤ b.pkBytes) :=
    ⟨fun a b => le_total a.pkBytes b.pkBytes⟩
  have htrans : IsTrans VisibleRow (fun a b => a.pkBytes ≤ b.pkBytes) := ⟨fun a b c h h' => h.trans h'⟩
  have hcode : ∀ g ∈ order, g.2.pkBytes = g.1 := fun g hg => by
    obtain ⟨pk,x,-,hp,he⟩ := (mem_newestRows hs.sorted).mp (horder.mem_iff.mp hg)
    rw [hp,he]
    exact pkBytes_of_rowKey rfl
  have hdistinct : order.Pairwise fun a b => a.1≠b.1 := by
    refine (horder.pairwise_iff fun h => h.symm).mpr ?_
    exact (List.pairwise_map.mp (sorted_newest _)).imp fun h => h.ne
  have hrows : (order.filterMap (visibleRow t.toSchema)).Pairwise fun a b => a.pkBytes≠b.pkBytes := by
    have hvis : ∀ {g : Bytes × RowEntry} {r}, visibleRow t.toSchema g = some r →
      r.pkBytes = g.2.pkBytes := by
      intro g r h
      unfold visibleRow at h
      split at h
      · cases h
      split at h
      · cases h
      · exact (congrArg VisibleRow.pkBytes (Option.some.inj h)).symm
    refine List.Pairwise.filterMap _ ?_ (hdistinct.imp_of_mem fun {a b} ha hb h =>
      (?_ : a.2.pkBytes≠b.2.pkBytes))
    · intro a b hab r hr s hs
      rwa [hvis hr,hvis hs]
    · rwa [hcode a ha,hcode b hb]
  have hsorted := ((List.perm_insertionSort (fun a b : VisibleRow => a.pkBytes ≤ b.pkBytes) _).pairwise_iff
    fun h => h.symm).mpr hrows
  exact (List.pairwise_insertionSort _ _).and hsorted |>.imp fun h => lt_of_le_of_ne h.1 h.2

lemma collect_eq {rows : List VisibleRow} {fuel idx : ℕ} {cur : Option (List Val)}
    (h : rows.length ≤ idx+1+fuel) :
    (EnterpriseRows.mk rows idx cur).collect fuel = (rows.drop (idx+1)).map fun r => some r.values := by
  induction fuel generalizing idx cur with
  | zero =>
    rw [List.drop_of_length_le h]
    rfl
  | succ fuel ih =>
    rw [EnterpriseRows.collect,EnterpriseRows.next]
    by_cases hi : idx+1 < rows.length
    · simp only [List.getElem?_eq_getElem hi,if_true]
      rw [ih (by omega),List.drop_eq_getElem_cons hi]
      rfl
    · simp [List.getElem?_eq_none (not_lt.mp hi),List.drop_of_length_le (not_lt.mp hi)]

def pkCode (schema : Schema) (pkValues : List Val) : Bytes :=
  match pkKey schema pkValues with
  | .error _ => []
  | .ok pk => rowCode schema.tableID pk

/-- The rows are those that `Get` returns for all the keys, in the order of the encoded keys. -/
def AgreesWithGet (schema : Schema) (st : Entries) (tx : UInt64)
    (yielded : List (Option (List Val))) : Prop :=
  ∃ es : List (List Val × List Val), (es.Pairwise fun a b => pkCode schema a.1 < pkCode schema b.1) ∧
    (∀ pkValues row, (pkValues,row) ∈ es ↔ get schema st tx pkValues = .ok row) ∧
      yielded = es.map fun e => some e.2

lemma get_of_row (hb : .bytes ∉ t.pkKinds) (hs : Sound t.toSchema st)
    (horder : order.Perm (newestRows t.toSchema st tx))
    {r : VisibleRow} (hr : r ∈ (scan t.toSchema order).rows) :
    ∃ pkValues, get t.toSchema st tx pkValues = .ok r.values ∧ pkCode t.toSchema pkValues = r.pkBytes := by
  obtain ⟨pk,x,hl,hrow,hcode⟩ := (mem_scan_rows hs horder).mp hr
  obtain ⟨hx,-,-⟩ := (latestOf_eq_some (sorted_versionsOf hs.sorted pk)).mp hl
  have hread := (mem_versionsOf.mp hx).1
  have hkey := pkKey_toVal hread.kinds
  have ha := addresses_of_pkKey hb (nulFree_toVal (hread.delimited hb)) hkey
  refine ⟨pk.map KeyValue.toVal,?_,?_⟩
  · rw [get,findVisibleRow_eq hb hs ha,hl]
    simp only [hrow]
    rfl
  · rw [pkCode,hkey,hcode]

/-- The loop yields what `Get` returns exactly when that is nothing. -/
theorem scan_agrees_iff (hb : .bytes ∉ t.pkKinds) (h : Reached t st)
    (horder : order.Perm (newestRows t.toSchema st tx))
    {fuel : ℕ} (hfuel : order.length ≤ fuel) :
    AgreesWithGet t.toSchema st tx ((scan t.toSchema order).collect fuel) ↔
      ∀ pkValues row, get t.toSchema st tx pkValues≠.ok row := by
  have hlen : (scan t.toSchema order).rows.length ≤ 0+1+fuel := by
    rw [scan,List.length_insertionSort]
    have := List.length_filterMap_le (visibleRow t.toSchema) order
    omega
  have hyield : (scan t.toSchema order).collect fuel =
    ((scan t.toSchema order).rows.drop 1).map fun r => some r.values :=
    collect_eq hlen
  rw [hyield]
  constructor
  · rintro ⟨es,-,hmem,hes⟩ pkValues row hget
    have hcount := congrArg List.length hes
    simp only [List.length_map,List.length_drop] at hcount
    have hpos : 0 < es.length := List.length_pos_of_mem ((hmem pkValues row).mpr hget)
    -- every row collected by the scan is the answer of `Get` for a key of its own
    have hsub : (scan t.toSchema order).rows.map VisibleRow.pkBytes ⊆ es.map fun e =>
      pkCode t.toSchema e.1 := by
      intro p hp
      obtain ⟨r,hr,rfl⟩ := List.mem_map.mp hp
      obtain ⟨pv,hg,hc⟩ := get_of_row hb h.sound horder hr
      exact List.mem_map.mpr ⟨(pv,r.values),(hmem pv r.values).mpr hg,hc⟩
    have hnodup : ((scan t.toSchema order).rows.map VisibleRow.pkBytes).Nodup :=
      List.pairwise_map.mpr ((scan_rows_ascending h.sound horder).imp fun h => h.ne)
    have hle := (List.subperm_of_subset hnodup hsub).length_le
    simp only [List.length_map] at hle
    omega
  · intro hnone
    have hempty : (scan t.toSchema order).rows = [] := by
      apply List.eq_nil_iff_forall_not_mem.mpr
      intro r hr
      obtain ⟨pv,hg,-⟩ := get_of_row hb h.sound horder hr
      exact hnone pv r.values hg
    rw [hempty]
    exact ⟨[],List.Pairwise.nil,fun pv row => iff_of_false List.not_mem_nil (hnone pv row),rfl⟩

/-- A user that was inserted. -/
def enrolled : Entries :=
  ((TableCall.insert 1 [.uint64 7,.string [65]]).step users.toSchema btreeLimits []).2

lemma enrolled_reached : Reached users enrolled :=
  (Reached.start (vacant_nil _)).call btreeLimits (.insert 1 [.uint64 7,.string [65]])

/-- And a second one. -/
def enrolledPair : Entries :=
  ((TableCall.insert 2 [.uint64 8,.string [66]]).step users.toSchema btreeLimits enrolled).2

/-- `Get` finds the users, so the loop cannot yield the same. -/
theorem scan_disagrees_pair :
    get users.toSchema enrolledPair 2 [.uint64 7] = .ok [.uint64 7,.string [65]] ∧
      get users.toSchema enrolledPair 2 [.uint64 8] = .ok [.uint64 8,.string [66]] ∧
      ¬AgreesWithGet users.toSchema enrolledPair 2
        ((scan users.toSchema (newestRows users.toSchema enrolledPair 2)).collect 2) := by
  have hreached : Reached users enrolledPair :=
    enrolled_reached.call btreeLimits (.insert 2 [.uint64 8,.string [66]])
  have hget : get users.toSchema enrolledPair 2 [.uint64 7] = .ok [.uint64 7,.string [65]] := by
    decide +kernel
  have hagrees := scan_agrees_iff (by decide) hreached (List.Perm.refl _)
    (show (newestRows users.toSchema enrolledPair 2).length ≤ 2 by decide +kernel)
  exact ⟨hget,by decide +kernel,fun h => hagrees.mp h _ _ hget⟩

theorem scan_skips_first_row :
    Reached users enrolled ∧ get users.toSchema enrolled 1 [.uint64 7] = .ok [.uint64 7,.string [65]] ∧
      (scan users.toSchema (newestRows users.toSchema enrolled 1)).collect 1 = [] :=
  ⟨enrolled_reached,by decide +kernel,by decide +kernel⟩

end Rows
end Plomvix.SQL
