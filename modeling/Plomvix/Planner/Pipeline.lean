import Plomvix.Planner.Translate

/-! What an operator yields in terms of what its child yields: all its rows, and the rows that a
number of calls return, as an operator above it need not ask for all of them. -/
namespace Plomvix.Planner
open Lib Engine Plomvix.Lib.Comp Plomvix.Lib.Cursor

lemma runs_of_drain {op : Operator} {rows : List Row} (h : op.drain.Returns (.ok rows)) :
    op.Runs rows := by
  obtain ⟨⟨r,s⟩,hopen,h⟩ := returns_bind.mp h
  cases r with
  | error e => cases (returns_pure.mp h)
  | ok u =>
    obtain ⟨⟨r,s'⟩,hcollect,h⟩ := returns_bind.mp h
    cases returns_pure.mp h
    exact ⟨s,s',hopen,collect_ok hcollect⟩

lemma Operator.Runs.unique {op : Operator} {rows rows' : List Row} (h : op.Runs rows)
    (h' : op.Runs rows') : rows = rows' := by
  obtain ⟨s,t,hopen,hs⟩ := h
  obtain ⟨s',t',hopen',hs'⟩ := h'
  obtain rfl := (Prod.mk.inj (hopen.unique hopen')).2
  exact (hs.unique hs').1

variable {lib : GoLib} {child : Operator} {out : List Row}

section Scan
variable {heap : TableHeap} {decoder : RowDecoder} {schema : Schema} {tx : TxContext}

def Decodes (decoder : RowDecoder) (schema : Schema) (tuples : List (Except Err (Bytes × UInt64)))
    (rows : List Row) : Prop :=
  tuples.Forall₂ (fun t row => ∃ encoded, t = .ok (encoded,row.rowID) ∧
    decoder encoded schema = .ok row.datums) rows

lemma streams_scan {tuples : List (Except Err (Bytes × UInt64))} {close : Except Err Unit}
    {rows : List Row}
    (h : Decodes decoder schema tuples rows) :
    Streams (seqScanNext decoder schema) (some ⟨tuples,close⟩) rows (some ⟨[],close⟩) := by
  induction h with
  | nil => exact ⟨_,.nil,returns_pure.mpr rfl⟩
  | @cons t row tuples rows ht _ ih =>
    obtain ⟨encoded,rfl,hd⟩ := ht
    refine ih.cons ?_
    simp only [seqScanNext,hd]
    exact returns_pure.mpr rfl

end Scan

section SortNode
variable {keys : List SortKey}

lemma streams_sorted {σ : Type} (c : σ) (rows : List Row) (i : ℕ) :
    ∃ s', Streams sortNext ⟨c,rows,i,true⟩ (rows.drop i) s' := by
  induction hn : rows.length-i generalizing i with
  | zero =>
    have hi : rows.length ≤ i := by omega
    refine ⟨⟨c,rows,i,true⟩,⟨c,rows,i,true⟩,?_,?_⟩
    · rw [List.drop_eq_nil_of_le hi]
      exact .nil
    · simp only [sortNext,List.getElem?_eq_none hi]
      exact returns_pure.mpr rfl
  | succ n ih =>
    have hi : i < rows.length := by omega
    obtain ⟨s',hs⟩ := ih (i+1) (by omega)
    refine ⟨s',?_⟩
    rw [List.drop_eq_getElem_cons hi]
    refine hs.cons ?_
    simp only [sortNext,List.getElem?_eq_getElem hi]
    exact returns_pure.mpr rfl

variable {sort : (Row → Row → Except Err Bool) → List Row → Except Err (List Row)}

lemma sort_opened {s : SortState child.State}
    (h : (sortOpenBy sort lib child keys ⟨child.init,[],0,false⟩).Returns (.ok (),s)) :
    ∃ below sorted c, child.Runs below ∧ sort (sortLess lib keys) below = .ok sorted ∧
      s = ⟨c,sorted,0,true⟩ := by
  obtain ⟨⟨r,c⟩,hopen,h⟩ := returns_bind.mp h
  cases r with
  | error e => cases returns_pure.mp h
  | ok u =>
    obtain ⟨⟨r,c'⟩,hcollect,h⟩ := returns_bind.mp h
    cases r with
    | error e => cases returns_pure.mp h
    | ok below =>
      simp only at h
      cases hsort : sort (sortLess lib keys) below with
      | error e =>
        rw [hsort] at h
        cases returns_pure.mp h
      | ok sorted =>
        rw [hsort] at h
        cases returns_pure.mp h
        exact ⟨below,sorted,c',⟨c,c',hopen,collect_ok hcollect⟩,hsort,rfl⟩

lemma runs_sortBy (h : (sortNodeBy sort lib child keys).Runs out) :
    ∃ below, child.Runs below ∧ sort (sortLess lib keys) below = .ok out := by
  obtain ⟨s,s',hopen,hs⟩ := h
  obtain ⟨below,sorted,c,hbelow,hsort,rfl⟩ := sort_opened hopen
  obtain ⟨t,hall⟩ := streams_sorted c sorted 0
  obtain rfl : out = sorted := (hs.unique hall).1
  exact ⟨below,hbelow,hsort⟩

lemma sortBy_runs {below : List Row} (h : child.Runs below)
    (hsort : sort (sortLess lib keys) below = .ok out) :
    (sortNodeBy sort lib child keys).Runs out := by
  obtain ⟨s,s',hopen,hs⟩ := h
  obtain ⟨t,hall⟩ := streams_sorted s' out 0
  refine ⟨⟨s',out,0,true⟩,t,returns_bind.mpr ⟨_,hopen,returns_bind.mpr ⟨_,collect_returns hs,?_⟩⟩,hall⟩
  simp only [hsort]
  exact returns_pure.mpr rfl

end SortNode

end Plomvix.Planner
