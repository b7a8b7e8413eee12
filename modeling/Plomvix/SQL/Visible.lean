import Plomvix.SQL.History

/-! The rows of a table that a reader sees, and what one inserted row changes in them. This holds for
keys of every kind, where the scans of the heap for one key may meet the rows of another. -/
namespace Plomvix.SQL
open Lib

def visibleAt (schema : Schema) (st : Entries) (tx : UInt64) (pk : List KeyValue) : Option (List Val) :=
  (latestOf tx (versionsOf schema st pk)).bind fun x => rowOf schema x.2

/-- The rows that a reader at `tx` sees, each with its key. -/
def visibleRows (schema : Schema) (st : Entries) (tx : UInt64) : Set (List KeyValue × List Val) :=
  {x | visibleAt schema st tx x.1 = some x.2}

lemma visibleRows_eq_iff {schema : Schema} {st st' : Entries} {tx : UInt64} :
    visibleRows schema st' tx = visibleRows schema st tx ↔
      ∀ pk, visibleAt schema st' tx pk = visibleAt schema st tx pk := by
  constructor
  · intro h pk
    apply Option.ext
    intro row
    exact Set.ext_iff.mp h (pk,row)
  · intro h
    ext x
    change visibleAt schema st' tx x.1 = some x.2 ↔ visibleAt schema st tx x.1 = some x.2
    rw [h]

section OneRow
variable {schema : Schema} {st : Entries} {pk pk' : List KeyValue} {tx r : UInt64} {d : Bytes}
  {row : List Val}

lemma visibleRows_put_later (hs : Assoc.Sorted st) (h : r < tx) :
    visibleRows schema (Assoc.put (rowKey schema pk tx) d st) r = visibleRows schema st r := by
  rw [visibleRows_eq_iff]
  intro pk'
  by_cases hcode : Readable schema pk' ∧ rowCode schema.tableID pk' = rowCode schema.tableID pk
  · obtain ⟨hr,hcode⟩ := hcode
    rw [visibleAt,rowKey,← hcode,← rowKey,versionsOf_put_same hs hr,latestOf_put_later h,visibleAt]
  · rw [visibleAt,versionsOf_put_other hs fun hr he => hcode ⟨hr,he⟩,visibleAt]

end OneRow

/-- The transaction of the call. -/
def TableCall.tx : TableCall → UInt64
  | .insert tx _ => tx
  | .update tx _ _ => tx
  | .delete tx _ => tx
  | .get tx _ => tx

section Later
variable {t : Table} {lim : Limits} {st : Entries} {tx r : UInt64}

lemma rowKey_of_encode {pkValues : List Val} {k : Bytes}
    (h : encodeRowKeyFromPK t.toSchema pkValues tx = .ok k) :
    ∃ pk, k = rowKey t.toSchema pk tx := by
  cases hk : pkKey t.toSchema pkValues with
  | ok pk =>
    rw [encodeRowKeyFromPK_eq hk] at h
    exact ⟨pk,(Except.ok.inj h).symm⟩
  | error e =>
    rw [encodeRowKeyFromPK] at h
    rw [pkKey] at hk
    split at h
    · cases h
    · rename_i hlen
      rw [if_neg hlen] at hk
      rw [hk] at h
      cases h

lemma setEntry_later {entry : Entries → Except Err (Bytes × Bytes)} (hs : Assoc.Sorted st) (h : r < tx)
    (hentry : ∀ k d, entry st = .ok (k,d) →
      ∃ pkValues, encodeRowKeyFromPK t.toSchema pkValues tx = .ok k) :
    Assoc.Sorted (setEntry lim entry st).2 ∧
      visibleRows t.toSchema (setEntry lim entry st).2 r = visibleRows t.toSchema st r := by
  rw [setEntry]
  cases he : entry st with
  | error e => exact ⟨hs,rfl⟩
  | ok kd =>
    obtain ⟨pkValues,hk⟩ := hentry kd.1 kd.2 he
    obtain ⟨pk,hk⟩ := rowKey_of_encode hk
    simp only [storeSet]
    split
    · rw [hk]
      exact ⟨Assoc.sorted_put _ _ hs,visibleRows_put_later hs h⟩
    · exact ⟨hs,rfl⟩

lemma visibleRows_later {cs : List TableCall} (hs : Assoc.Sorted st) (h : ∀ c ∈ cs, r < c.tx) :
    visibleRows t.toSchema (Machine.run (TableCall.step t.toSchema lim) cs st).2 r =
      visibleRows t.toSchema st r := by
  have hstep : ∀ c st', Assoc.Sorted st' ∧
    visibleRows t.toSchema st' r = visibleRows t.toSchema st r → r < c.tx →
      (Assoc.Sorted (TableCall.step t.toSchema lim c st').2 ∧
        visibleRows t.toSchema (TableCall.step t.toSchema lim c st').2 r =
          visibleRows t.toSchema st r) ∧ True := by
    rintro c st' ⟨hs',hv⟩ hc
    refine ⟨?_,trivial⟩
    rw [← hv]
    cases c with
    | insert tx values => exact setEntry_later hs' hc fun k d hk => ⟨_,(insertEntry_ok_iff.mp hk).2.2.2.2⟩
    | update tx pkValues newValues =>
      exact setEntry_later hs' hc fun k d hk => ⟨_,(updateEntry_ok_iff.mp hk).2.2.2.2.2⟩
    | delete tx pkValues => exact setEntry_later hs' hc fun k d hk => ⟨_,(deleteEntry_ok_iff.mp hk).2.2.2⟩
    | get tx pkValues => exact ⟨hs',rfl⟩
  have hrun := Machine.run_invariant (Q := fun _ => True) hstep ⟨hs,rfl⟩ (Machine.allowed_of_forall h st)
  exact hrun.1.2

end Later
end Plomvix.SQL
