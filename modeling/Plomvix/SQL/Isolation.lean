import Plomvix.SQL.Visible

/-! Calls on several tables of one store. Whatever bytes the keys are made of, no row of another
table is within the bounds of a scan, so every table answers as if it were alone; and a version
above that of a reader is not there for it. -/
namespace Plomvix.SQL
open Lib

section Bounds
variable {id id' v : UInt64}

lemma not_within_other (hid : id≠id') (hv : v≠0) (a : Bytes) (pk : List KeyValue) :
    ¬Within (tablePrefix id++a) (rowCode id' pk++be64 v) := by
  intro h
  have hdiffer : ¬tablePrefix id <+: rowCode id' pk++be64 v := by
    intro hp
    have hp' : tablePrefix id' <+: rowCode id' pk++be64 v := by
      rw [rowCode,List.append_assoc]
      exact List.prefix_append ..
    have heq := (List.prefix_of_prefix_length_le hp hp' (by simp [tablePrefix_length])).eq_of_length
      (by simp [tablePrefix_length])
    exact hid (be64_injective (List.cons.inj heq).2)
  obtain ⟨c,b,n,hp,-,he⟩ := prefixEnd_eq (tablePrefix_not_full id a)
  unfold Within at h
  rw [he,hp] at h
  obtain hstart | ⟨m,-,hk⟩ := mem_carry_interval h.1 h.2
  · rw [← hp] at hstart
    exact hdiffer ((List.prefix_append ..).trans hstart)
  by_cases hlen : 9 ≤ c.length
  · have hc : tablePrefix id <+: c :=
      List.prefix_of_prefix_length_le ⟨a,hp⟩ (List.prefix_append ..) (by rwa [tablePrefix_length])
    rw [hk] at hdiffer
    exact hdiffer (hc.trans (List.prefix_append ..))
  · -- the carry went into the number of the table and left zeros, the version among them
    have hshort : (c++[b+1]).length ≤ (rowCode id' pk).length := by
      simp only [rowCode,List.length_append,List.length_singleton,tablePrefix_length]
      omega
    have hdrop := congrArg (List.drop (rowCode id' pk).length) hk
    rw [List.drop_left,List.append_cons,List.drop_append,List.drop_of_length_le hshort,
      List.nil_append,List.drop_replicate] at hdrop
    exact hv (eq_zero_of_be64 hdrop)

def Own (id : UInt64) (k : Bytes) : Prop := ∃ a, Within (tablePrefix id++a) k

lemma not_own_other (hid : id≠id') (hv : v≠0) (pk : List KeyValue) : ¬Own id (rowCode id' pk++be64 v) := by
  rintro ⟨a,h⟩
  exact not_within_other hid hv a pk h

lemma last_eight (pk : List KeyValue) :
    getUint64 ((rowCode id pk++be64 v).drop ((rowCode id pk++be64 v).length-8)) = v := by
  rw [List.length_append,be64_length,Nat.add_sub_cancel,List.drop_left,getUint64_be64]

/-- Such a key of a version up to `r`. -/
def OwnUpTo (id r : UInt64) (k : Bytes) : Prop := Own id k ∧ getUint64 (k.drop (k.length-8)) ≤ r

end Bounds

section Steps
variable {t : Table} {lim : Limits} {st st' : Entries} {pkValues : List Val} {tx r : UInt64}

lemma rowVersions_own (h : Assoc.AgreeOn (Own t.tableID) st st') (pk : List KeyValue) :
    rowVersions t.toSchema
      (storeScan st (scanBounds (rowCode t.tableID pk)).1 (scanBounds (rowCode t.tableID pk)).2) =
      rowVersions t.toSchema (storeScan st' (scanBounds (rowCode t.tableID pk)).1
        (scanBounds (rowCode t.tableID pk)).2) := by
  rw [rowVersions,rowVersions,storeScan,storeScan,List.filterMap_filter,List.filterMap_filter]
  refine h.filterMap fun e he => if_neg ?_
  rw [decide_eq_true_eq,rowCode,inRange_scanBounds]
  exact fun hin => he ⟨_,hin⟩

lemma findVisibleRow_own (h : Assoc.AgreeOn (Own t.tableID) st st') :
    findVisibleRow t.toSchema st pkValues tx = findVisibleRow t.toSchema st' pkValues tx := by
  rw [findVisibleRow,findVisibleRow,encodeRowVersionPrefix_eq]
  cases pkKey t.toSchema pkValues with
  | error e => rfl
  | ok pk => simp only [Except.map,rowVersions_own h pk]

lemma validateMonotonicTx_own (h : Assoc.AgreeOn (Own t.tableID) st st') :
    validateMonotonicTx t.toSchema st pkValues tx = validateMonotonicTx t.toSchema st' pkValues tx := by
  rw [validateMonotonicTx,validateMonotonicTx,encodeRowVersionPrefix_eq]
  cases pkKey t.toSchema pkValues with
  | error e => rfl
  | ok pk => simp only [Except.map,rowVersions_own h pk]

lemma setEntry_own {P : Bytes → Prop} {entry : Entries → Except Err (Bytes × Bytes)}
    (h : Assoc.AgreeOn P st st')
    (hentry : entry st = entry st') : (setEntry lim entry st).1 = (setEntry lim entry st').1 ∧
      Assoc.AgreeOn P (setEntry lim entry st).2 (setEntry lim entry st').2 := by
  rw [setEntry,setEntry,hentry]
  cases entry st' with
  | error e => exact ⟨rfl,h⟩
  | ok kd =>
    simp only [storeSet]
    split_ifs
    · exact ⟨rfl,h.put kd.1 kd.2⟩
    · exact ⟨rfl,h⟩

lemma step_own (h : Assoc.AgreeOn (Own t.tableID) st st') (c : TableCall) :
    (c.step t.toSchema lim st).1 = (c.step t.toSchema lim st').1 ∧
      Assoc.AgreeOn (Own t.tableID) (c.step t.toSchema lim st).2 (c.step t.toSchema lim st').2 := by
  have hwrite : ∀ {x x' : Except Err Unit × Entries}, x.1 = x'.1 ∧ Assoc.AgreeOn (Own t.tableID) x.2 x'.2 →
      x.1.map (fun _ => (none : Option (List Val))) = x'.1.map (fun _ => none) ∧
        Assoc.AgreeOn (Own t.tableID) x.2 x'.2 :=
    fun hx => ⟨by rw [hx.1],hx.2⟩
  cases c with
  | insert tx values =>
    exact hwrite (setEntry_own h (by simp only [insertEntry,validateMonotonicTx_own h,
      findVisibleRow_own h]))
  | update tx pkValues newValues =>
    exact hwrite (setEntry_own h (by simp only [updateEntry,validateMonotonicTx_own h,
      findVisibleRow_own h]))
  | delete tx pkValues =>
    exact hwrite (setEntry_own h (by simp only [deleteEntry,validateMonotonicTx_own h,
      findVisibleRow_own h]))
  | get tx pkValues => exact ⟨by simp only [TableCall.step,get,findVisibleRow_own h],h⟩

lemma setEntry_other {P : Bytes → Prop} {entry : Entries → Except Err (Bytes × Bytes)}
    (h : Assoc.AgreeOn P st st')
    (hP : tx≠0 → ∀ pk, ¬P (rowKey t.toSchema pk tx))
    (hentry : ∀ k d, entry st = .ok (k,d) →
      ∃ pkValues, validateMonotonicTx t.toSchema st pkValues tx = .ok () ∧
      encodeRowKeyFromPK t.toSchema pkValues tx = .ok k) :
        Assoc.AgreeOn P (setEntry lim entry st).2 st' := by
  rw [setEntry]
  cases he : entry st with
  | error e => exact h
  | ok kd =>
    obtain ⟨_,hv,hk⟩ := hentry kd.1 kd.2 he
    obtain ⟨pk,hk⟩ := rowKey_of_encode hk
    simp only [storeSet]
    split_ifs
    · exact h.put_left (hk ▸ hP (of_validate hv).1 pk) kd.2
    · exact h

lemma step_other {P : Bytes → Prop} (h : Assoc.AgreeOn P st st') (c : TableCall)
    (hP : c.tx≠0 → ∀ pk, ¬P (rowKey t.toSchema pk c.tx)) :
    Assoc.AgreeOn P (c.step t.toSchema lim st).2 st' := by
  cases c with
  | insert tx values =>
    refine setEntry_other h hP fun k d hk => ?_
    obtain ⟨-,hv,-,-,hk⟩ := insertEntry_ok_iff.mp hk
    exact ⟨_,hv,hk⟩
  | update tx pkValues newValues =>
    refine setEntry_other h hP fun k d hk => ?_
    obtain ⟨-,hv,-,-,-,hk⟩ := updateEntry_ok_iff.mp hk
    exact ⟨_,hv,hk⟩
  | delete tx pkValues =>
    refine setEntry_other h hP fun k d hk => ?_
    obtain ⟨hv,-,-,hk⟩ := deleteEntry_ok_iff.mp hk
    exact ⟨_,hv,hk⟩
  | get tx pkValues => exact h

variable (h : Assoc.AgreeOn (OwnUpTo t.tableID r) st st')
include h

lemma scanned_upTo {W : Type} {f : Bytes × Bytes → Option W} {version : W → UInt64}
    (hf : ∀ e x, f e = some x → ∃ id pk, e.1 = rowCode id pk++be64 (version x)) (a : Bytes) :
    ((storeScan st (scanBounds (tablePrefix t.tableID++a)).1
      (scanBounds (tablePrefix t.tableID++a)).2).filterMap f).filter (version · ≤ r) =
      ((storeScan st' (scanBounds (tablePrefix t.tableID++a)).1
        (scanBounds (tablePrefix t.tableID++a)).2).filterMap f).filter (version · ≤ r) := by
  rw [storeScan,storeScan,List.filterMap_filter,List.filterMap_filter,List.filter_filterMap,
    List.filter_filterMap]
  refine h.filterMap fun e he => ?_
  split_ifs with hin
  · rw [decide_eq_true_eq,inRange_scanBounds] at hin
    cases hx : f e with
    | none => rfl
    | some x =>
      obtain ⟨id,pk,hk⟩ := hf e x hx
      have hlater : ¬version x ≤ r := fun hle => he ⟨⟨a,hin⟩,by rwa [hk,last_eight]⟩
      simp [Option.filter,hlater]
  · rfl

lemma get_upTo (pkValues : List Val) : get t.toSchema st r pkValues = get t.toSchema st' r pkValues := by
  rw [get,get,findVisibleRow,findVisibleRow,encodeRowVersionPrefix_eq]
  cases pkKey t.toSchema pkValues with
  | error e => rfl
  | ok pk =>
    simp only [Except.map,rowVersions,rowCode]
    rw [scanned_upTo h fun e x hx => ?_]
    split at hx
    · cases hx
    · obtain rfl := Option.some.inj hx
      exact ⟨_,_,(of_decodeTableRowKey ‹_›).1⟩

lemma newestRows_upTo : newestRows t.toSchema st r = newestRows t.toSchema st' r := by
  rw [newestRows,newestRows,tableRows,tableRows,← List.append_nil (tablePrefix t.tableID),
    scanned_upTo h fun e x hx => ?_]
  split at hx
  · cases hx
  · obtain rfl := Option.some.inj hx
    exact ⟨_,_,(of_decodeTableRowKey ‹_›).1⟩

end Steps

/-- The tables of a store, each with its own number. -/
structure Tables where
  table : UInt64 → Table
  tableID : ∀ id, (table id).tableID = id

namespace Tables
variable {lim : Limits} {st : Entries} {calls : List (UInt64 × TableCall)} {id r : UInt64}

def step (tables : Tables) (lim : Limits) (x : UInt64 × TableCall) :
    Entries → Except Err (Option (List Val)) × Entries :=
  x.2.step (tables.table x.1).toSchema lim

/-- The call, if it is on this table. -/
def callOn (id : UInt64) (x : UInt64 × TableCall) : Option TableCall := if x.1 = id then some x.2 else none

/-- However calls on several tables follow each other, those on one of them return what they would
return without the others. -/
theorem isolated (tables : Tables) (hs : Assoc.Sorted st) (calls : List (UInt64 × TableCall))
    (id : UInt64) :
    ((calls.zip (Machine.run (tables.step lim) calls st).1).filterMap fun x =>
      (callOn id x.1).map fun _ => x.2) =
      (Machine.run (TableCall.step (tables.table id).toSchema lim) (calls.filterMap (callOn id))
        st).1 := by
  refine (Machine.run_own (E := Assoc.AgreeOn (Own (tables.table id).tableID)) ?_ ?_ calls (.refl hs)).1
  · rintro ⟨i,c⟩ b s s' ha h
    obtain ⟨rfl,rfl⟩ := Option.ite_some_none_eq_some.mp ha
    exact step_own h c
  · rintro ⟨i,c⟩ s s' ha h
    have hid : id≠i := fun he => by simp [callOn,he] at ha
    refine step_other h c fun htx pk => not_own_other ?_ htx pk
    rwa [tables.tableID,tables.tableID]

/-- What a reader at `r` gets of a table stays the same as long as its later calls have later
versions; so does what it scans. -/
theorem reads_repeat (tables : Tables) (hs : Assoc.Sorted st) (h : ∀ x ∈ calls, x.1 = id → r < x.2.tx) :
    let st' := (Machine.run (tables.step lim) calls st).2
    (∀ pkValues, get (tables.table id).toSchema st' r pkValues =
      get (tables.table id).toSchema st r pkValues) ∧
      newestRows (tables.table id).toSchema st' r = newestRows (tables.table id).toSchema st r := by
  have hstep : ∀ (x : UInt64 × TableCall) st',
    Assoc.AgreeOn (OwnUpTo (tables.table id).tableID r) st' st → (x.1 = id → r < x.2.tx) →
      Assoc.AgreeOn (OwnUpTo (tables.table id).tableID r) (tables.step lim x st').2 st ∧ True := by
    rintro ⟨i,c⟩ st' hst' hlater
    refine ⟨step_other hst' c fun htx pk hown => ?_,trivial⟩
    by_cases hi : i = id
    · have hle := hown.2
      rw [rowKey,last_eight] at hle
      exact not_lt.mpr hle (hlater hi)
    · refine not_own_other ?_ htx pk hown.1
      rw [tables.tableID,tables.tableID]
      exact Ne.symm hi
  obtain ⟨hend,-⟩ :=
    Machine.run_invariant (Q := fun _ => True) hstep (.refl hs) (Machine.allowed_of_forall h st)
  exact ⟨get_upTo hend,newestRows_upTo hend⟩

def allUsers : Tables where
  table id := { users with tableID := id, accepted := users.accepted }
  tableID _ := rfl

end Tables
end Plomvix.SQL
