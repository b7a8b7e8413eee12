import Plomvix.Lib.Machine
import Plomvix.KV.Frame

/-! The store as an ordered map. With values that fit a leaf slot, every run of calls over a
healthy pager has the results of a finite map from keys to values. -/
namespace Plomvix.KV
open Lib Pager BPlus

/-- What a client does with the store. -/
inductive Act
  | set (k : Key) (v : Bytes)
  | delete (k : Key)
  | get (k : Key)
  | scan (first last : Key)
  | reopen

inductive Res
  | done
  | value (v : Option Bytes)
  | listed (es : List Entry)

/-- A call and its result; `ErrKeyNotFound` is the answer that there is no value. -/
def Act.run : Act → Cmd Res
  | .set k v => do KV.set k v; pure .done
  | .delete k => do KV.delete k; pure .done
  | .get k => Prog.handle (do let v ← KV.get k; pure (.value (some v))) fun
    | .err .keyNotFound => pure (.value none)
    | e => .stop e
  | .scan first last => do let es ← KV.scan first last; pure (.listed es)
  | .reopen => fun s =>
    let s' := (close s).2
    (openStore >>= fun _ => pure .done : Cmd Res) (newBtreeStore s'.pages s'.faults)

def Act.step (a : Act) (s : Store) : Except Fail Res × Store := a.run s

/-- Sizes as the calls admit them, with values that fit a leaf slot. -/
def Act.Inline : Act → Prop
  | .set k v => k.length ≤ maxKeySize ∧ v.length ≤ maxValSize
  | .delete k => k.length ≤ maxKeySize
  | .get k => k.length ≤ maxKeySize
  | .scan first last => first.length ≤ maxKeySize ∧ last.length ≤ maxKeySize
  | .reopen => True

instance : (a : Act) → Decidable a.Inline
  | .set k v => inferInstanceAs (Decidable (k.length ≤ maxKeySize ∧ v.length ≤ maxValSize))
  | .delete k => inferInstanceAs (Decidable (k.length ≤ maxKeySize))
  | .get k => inferInstanceAs (Decidable (k.length ≤ maxKeySize))
  | .scan first last =>
    inferInstanceAs (Decidable (first.length ≤ maxKeySize ∧ last.length ≤ maxKeySize))
  | .reopen => inferInstanceAs (Decidable True)

/-- What a map answers and becomes. -/
def Act.spec (a : Act) (m : Key → Option Bytes) (r : Except Fail Res) (m' : Key → Option Bytes) : Prop :=
  match a with
  | .set k v => r = .ok .done ∧ m' = Function.update m k (some v)
  | .delete k => r = .ok .done ∧ m' = Function.update m k none
  | .get k => r = .ok (.value (m k)) ∧ m' = m
  | .scan first last => m' = m ∧ ∃ es, r = .ok (.listed es) ∧ Assoc.Sorted es ∧
      ∀ k v, (k,v) ∈ es ↔ m k = some v ∧ InRange first last k
  | .reopen => r = .ok .done ∧ m' = m

def Represents (s : Store) (m : Key → Option Bytes) : Prop :=
  ∃ o, Good s o ∧ (∀ x ∈ o.contents, x.2.value.length ≤ maxValSize) ∧
    ∀ k, m k = (Assoc.lookup k o.contents).map Slot.value

section Step
variable {s s' : Store} {o o' : Root} {m : Key → Option Bytes} {k : Key}

lemma lookup_other (hg : Good s o) (hin : ∀ x ∈ o.contents, x.2.value.length ≤ maxValSize)
    {es : List (Key × Slot)}
    (he : ∀ j, j≠k → Assoc.lookup j es = (Assoc.lookup j (o.leafAt k)).map Slot.flat) {j : Key}
    (hj : j≠k) :
    Assoc.lookup j (o.withLeaf k es) = Assoc.lookup j o.contents := by
  rw [hg.shows.lookup_withLeaf k (he j hj)]
  split
  · cases hl : Assoc.lookup j o.contents with
    | none => rfl
    | some e => rw [Option.map_some,Slot.flat_eq_self (hin _ (Assoc.mem_of_lookup hl))]
  · rfl

lemma represents_write (hin : ∀ x ∈ o.contents, x.2.value.length ≤ maxValSize)
    (hm : ∀ j, m j = (Assoc.lookup j o.contents).map Slot.value) (hg' : Good s' o')
    (w : Option Slot) (hw : ∀ e ∈ w, e.value.length ≤ maxValSize)
    (hl : ∀ j, Assoc.lookup j o'.contents = if j = k then w else Assoc.lookup j o.contents) :
    Represents s' (Function.update m k (w.map Slot.value)) := by
  refine ⟨o',hg',fun x hx => ?_,fun j => ?_⟩
  · have hx' := (Assoc.lookup_eq_some hg'.shows.sorted_contents).mpr hx
    rw [hl] at hx'
    split at hx'
    · exact hw _ hx'
    · exact hin _ (Assoc.mem_of_lookup hx')
  · rw [hl]
    by_cases hj : j = k
    · subst hj
      rw [Function.update_self,if_pos rfl]
    · rw [Function.update_of_ne hj,if_neg hj,hm]

lemma represents_set (hm : Represents s m) (hr : s.Roomy) {v : Bytes} (hk : k.length ≤ maxKeySize)
    (hv : v.length ≤ maxValSize) :
    ∃ s', set k v s = (.ok (),s') ∧ Represents s' (Function.update m k (some v)) := by
  obtain ⟨o,hg,hin,hm⟩ := hm
  have hfit : v.length+8 ≤ maxValSizeEnterprise := by
    simp only [maxValSize,maxValSizeEnterprise] at hv ⊢
    omega
  obtain ⟨s',o',e,hrun,hg',hval,hc,-⟩ := hg.set_ok hr hk hfit
  refine ⟨s',hrun,hval ▸ represents_write hin hm hg' (some e) (fun x hx => ?_) fun j => ?_⟩
  · rw [← Option.mem_some.mp hx,hval]
    exact hv
  · rw [hc]
    split
    · rename_i hj
      rw [hj,hg.shows.lookup_withLeaf_self,Assoc.lookup_put,if_pos rfl]
    · rename_i hj
      exact lookup_other hg hin (fun i hi => lookup_put_other e _ hi) hj

lemma represents_delete (hm : Represents s m) (k : Key) :
    ∃ s', delete k s = (.ok (),s') ∧ Represents s' (Function.update m k none) := by
  obtain ⟨o,hg,hin,hm⟩ := hm
  by_cases h : k ∈ (o.leafAt k).map Prod.fst
  · obtain ⟨s',o',hrun,hg',hc,-⟩ := hg.delete_present h
    refine ⟨s',hrun,represents_write hin hm hg' none (by simp) fun j => ?_⟩
    rw [hc]
    split
    · rename_i hj
      rw [hj,hg.shows.lookup_withLeaf_self,Assoc.lookup_erase,if_pos rfl]
    · rename_i hj
      exact lookup_other hg hin (fun i hi => lookup_erase_other _ hi) hj
  · obtain ⟨s',hrun,hg',-⟩ := hg.delete_absent h
    refine ⟨s',hrun,represents_write hin hm hg' none (by simp) fun j => ?_⟩
    split
    · rename_i hj
      rw [hj,hg.shows.lookup_leafAt]
      exact Assoc.lookup_none fun x hx hxk => h (exists_key_iff.mp ⟨x,hx,hxk⟩)
    · rfl

lemma Good.get_run (hg : Good s o) (k : Key) :
    ∃ n, (Act.get k).run s = (.ok (.value ((Assoc.lookup k o.contents).map Slot.value)),
      s.tick .read n) := by
  obtain ⟨n,hrun⟩ := get_ok hg.healthy hg.opened hg.shows k
  refine ⟨n,?_⟩
  cases hl : Assoc.lookup k o.contents with
  | some e =>
    rw [hl] at hrun
    exact Prog.handle_ok ((Prog.bind_ok hrun).trans rfl)
  | none =>
    rw [hl] at hrun
    exact Prog.handle_error (Prog.bind_error hrun)

lemma represents_get (hm : Represents s m) (k : Key) :
    ∃ s', (Act.get k).run s = (.ok (.value (m k)),s') ∧ Represents s' m := by
  obtain ⟨o,hg,hin,hm⟩ := hm
  obtain ⟨n,hrun⟩ := hg.get_run k
  exact ⟨s.tick .read n,by rw [hrun,hm],o,⟨hg.healthy,hg.opened,hg.shows⟩,hin,hm⟩

lemma mem_scanned (hg : Good s o) (hm : ∀ j, m j = (Assoc.lookup j o.contents).map Slot.value)
    {first last : Key} (v : Bytes) :
    (k,v) ∈ scanned first last o.contents ↔ m k = some v ∧ InRange first last k := by
  have hiff : m k = some v ↔ ∃ e, (k,e) ∈ o.contents ∧ e.value = v := by
    simp only [hm,Option.map_eq_some_iff,Assoc.lookup_eq_some hg.shows.sorted_contents]
  rw [hiff]
  simp only [scanned,List.mem_map,List.mem_filter,decide_eq_true_eq,Prod.mk.injEq]
  constructor
  · rintro ⟨⟨j,e⟩,⟨hx,hrange⟩,rfl,rfl⟩
    exact ⟨⟨e,hx,rfl⟩,hrange⟩
  · rintro ⟨⟨e,hx,rfl⟩,hrange⟩
    exact ⟨(k,e),⟨hx,hrange⟩,rfl,rfl⟩

lemma sorted_scanned (hg : Good s o) (first last : Key) :
    Assoc.Sorted (scanned first last o.contents) := by
  rw [scanned,Assoc.sorted_map]
  exact hg.shows.sorted_contents.sublist (List.filter_sublist.map _)

lemma represents_scan (hm : Represents s m) (first last : Key) :
    ∃ es n, scan first last s = (.ok es,s.tick .read n) ∧ Assoc.Sorted es ∧
      (∀ k v, (k,v) ∈ es ↔ m k = some v ∧ InRange first last k) ∧ Represents (s.tick .read n) m := by
  obtain ⟨o,hg,hin,hm⟩ := hm
  obtain ⟨n,hrun⟩ := scan_ok first last hg.healthy hg.opened hg.shows
  exact ⟨_,n,hrun,sorted_scanned hg first last,fun k v => mem_scanned hg hm v,
    o,⟨hg.healthy,hg.opened,hg.shows⟩,hin,hm⟩

lemma Good.reopen_run (hg : Good s o) : ∃ s', Act.reopen.run s = (.ok .done,s') ∧ Good s' o := by
  have hclose : close s = (.ok (),{ s with isOpen := false, closed := true }) := by
    change (if s.closed then _ else _ : Cmd Unit) s = _
    rw [hg.opened.2]
    rfl
  have hfaults : s.faults = noFaults := by
    funext c n
    exact hg.healthy c n
  obtain ⟨s',hrun,hg',-⟩ := open_again hg.shows
  refine ⟨s',?_,hg'⟩
  change (openStore >>= fun _ => pure .done : Cmd Res)
    (newBtreeStore (close s).2.pages (close s).2.faults) = _
  rw [hclose,hfaults]
  exact Prog.bind_ok hrun

lemma represents_reopen (hm : Represents s m) :
    ∃ s', Act.reopen.run s = (.ok .done,s') ∧ Represents s' m := by
  obtain ⟨o,hg,hin,hm⟩ := hm
  obtain ⟨s',hrun,hg'⟩ := hg.reopen_run
  exact ⟨s',hrun,o,hg',hin,hm⟩

end Step

lemma act_refines (a : Act) (s : Store) (m : Key → Option Bytes) (hm : Represents s m)
    (h : a.Inline ∧ s.Roomy) : ∃ m', a.spec m (a.step s).1 m' ∧ Represents (a.step s).2 m' := by
  unfold Act.step
  cases a with
  | set k v =>
    obtain ⟨s',hrun,hm'⟩ := represents_set hm h.2 h.1.1 h.1.2
    have hx : (Act.set k v).run s = (.ok .done,s') := Prog.bind_ok hrun
    rw [hx]
    exact ⟨_,⟨rfl,rfl⟩,hm'⟩
  | delete k =>
    obtain ⟨s',hrun,hm'⟩ := represents_delete hm k
    have hx : (Act.delete k).run s = (.ok .done,s') := Prog.bind_ok hrun
    rw [hx]
    exact ⟨_,⟨rfl,rfl⟩,hm'⟩
  | get k =>
    obtain ⟨s',hrun,hm'⟩ := represents_get hm k
    rw [hrun]
    exact ⟨m,⟨rfl,rfl⟩,hm'⟩
  | scan first last =>
    obtain ⟨es,n,hrun,hsorted,hes,hm'⟩ := represents_scan hm first last
    have hx : (Act.scan first last).run s = (.ok (.listed es),s.tick .read n) := Prog.bind_ok hrun
    rw [hx]
    exact ⟨m,⟨rfl,es,rfl,hsorted,hes⟩,hm'⟩
  | reopen =>
    obtain ⟨s',hrun,hm'⟩ := represents_reopen hm
    rw [hrun]
    exact ⟨m,⟨rfl,rfl⟩,hm'⟩

lemma represents_fresh : Represents freshStore fun _ => none :=
  ⟨none,freshStore_good.1,fun _ hx => absurd hx List.not_mem_nil,fun _ => rfl⟩

/-- Every run of calls with short values has the results of an ordered map that starts empty. -/
theorem store_refines_ordered_map {acts : List Act}
    (h : Machine.Allowed Act.step (fun a s => a.Inline ∧ s.Roomy) acts freshStore) :
    ∃ m, Machine.Trace Act.spec (fun _ => none) acts
      (Machine.run Act.step acts freshStore).1 m := by
  obtain ⟨m,ht,-⟩ := Machine.run_traces act_refines represents_fresh h
  exact ⟨m,ht⟩

theorem store_refines_ordered_map_set_get :
    ∃ m, Machine.Trace Act.spec (fun _ => none) [.set [1] [2],.get [1],.reopen]
      (Machine.run Act.step [.set [1] [2],.get [1],.reopen] freshStore).1 m := by
  refine store_refines_ordered_map ⟨⟨by decide,roomy_fresh⟩,?_⟩
  obtain ⟨s,a,e,hrun,hg,-,hcount⟩ := freshStore_good.1.set_first roomy_fresh (k := [1]) (v := [2])
    (by decide) (by decide)
  have hs : (Act.set [1] [2]).run freshStore = (.ok .done,s) := Prog.bind_ok hrun
  have hroomy : s.Roomy := by
    rw [freshStore_good.2] at hcount
    exact hcount.trans (by decide)
  obtain ⟨m,hget⟩ := get_ok hg.healthy hg.opened hg.shows [1]
  have hg2 : (Act.get [1]).run s = (.ok (.value (some e.value)),s.tick .read m) :=
    Prog.handle_ok ((Prog.bind_ok hget).trans rfl)
  simp only [Machine.Allowed,Act.step,hs,hg2]
  exact ⟨⟨by decide,hroomy⟩,⟨trivial,hroomy⟩,trivial⟩

end Plomvix.KV
