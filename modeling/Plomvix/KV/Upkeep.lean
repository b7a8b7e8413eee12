import Plomvix.KV.LargeValues

/-! What holds of a store through every run, compactions included: its pages are a search tree,
scans agree with single reads, and with short values it goes on to answer as an ordered map. -/
namespace Plomvix.KV
open Lib Pager BPlus

section Served
variable {s s' : Store} {o : Root}

/-- The pages below the root are a search tree: sorted, of one depth, with nodes that are not too
wide, and no page twice. -/
theorem kept_tree (h : Served s) : ∃ o, Shows s.pages s.rootPageID o := by
  obtain ⟨o,hg⟩ := h.good
  exact ⟨o,hg.shows⟩

/-- Two entries, compacted. -/
def compactedPair : Store := (compact pairStore).2

lemma Served.set (h : Served s) (hr : s.Roomy) (k : Key) (v : Bytes) : Served (KV.set k v s).2 := by
  have hact := h.act hr (.set k v)
  rwa [show ((Act.set k v).step s).2 = (KV.set k v s).2 from bind_state fun _ _ => rfl] at hact

lemma compactedPair_served : Served compactedPair := by
  have hone : Served oneStore := served_fresh.set roomy_fresh [1] [2]
  have hpair : Served pairStore := hone.set oneStore_roomy [3] [4]
  exact .compact hpair pairStore_compactable (by decide +kernel)

theorem kept_tree_pair : Served compactedPair ∧
    ∃ o, Shows compactedPair.pages compactedPair.rootPageID o :=
  ⟨compactedPair_served,kept_tree compactedPair_served⟩

lemma scanned_meet {first mid last : Key} (hmid : mid≠[]) (hfirst : first = [] ∨ first ≤ mid)
    (hlast : last = [] ∨ mid ≤ last)
    {es : List (Key × Slot)} (hs : Assoc.Sorted es) :
    scanned first last es = scanned first mid es++scanned mid last es := by
  unfold scanned
  rw [← List.map_append]
  congr 1
  induction es with
  | nil => rfl
  | cons e es ih =>
    obtain ⟨hbelow,hs⟩ := Assoc.sorted_cons.mp hs
    by_cases hlt : e.1 < mid
    · have hout : ¬InRange mid last e.1 := fun h => (h.1.resolve_left hmid).not_gt hlt
      have hiff : InRange first last e.1 ↔ InRange first mid e.1 :=
        and_congr_right fun _ => ⟨fun _ => .inr hlt,fun _ => hlast.imp_right hlt.trans_le⟩
      rw [List.filter_cons,List.filter_cons,List.filter_cons,ih hs]
      simp only [hiff,hout,decide_false,Bool.false_eq_true,if_false]
      split <;> rfl
    · -- from here on all keys are in the second range
      have hle : ∀ x ∈ e::es, mid ≤ x.1 :=
        List.forall_mem_cons.mpr ⟨not_lt.mp hlt,fun x hx => (not_lt.mp hlt).trans (hbelow x hx).le⟩
      have hnone : (e::es).filter (fun x => InRange first mid x.1) = [] :=
        List.filter_eq_nil_iff.mpr fun x hx => by simp [InRange,hmid,(hle x hx).not_gt]
      rw [hnone,List.nil_append]
      refine List.filter_congr fun x hx => decide_eq_decide.mpr (and_congr_left fun _ => ?_)
      exact ⟨fun _ => .inr (hle x hx),fun _ => hfirst.imp_right fun h => h.trans (hle x hx)⟩

/-- Two scans that meet are one scan, which finds in order what single reads find. -/
theorem scans_meet (h : Served s) {first mid last : Key} (hmid : mid≠[])
    (hfirst : first = [] ∨ first ≤ mid)
    (hlast : last = [] ∨ mid ≤ last) : ∃ es es', (scan first mid s).1 = .ok es ∧
      (scan mid last s).1 = .ok es' ∧
      (scan first last s).1 = .ok (es++es') ∧ Assoc.Sorted (es++es') ∧
      ∀ k v, (k,v) ∈ es++es' ↔ (get k s).1 = .ok v ∧ InRange first last k := by
  obtain ⟨o,hg⟩ := h.good
  have happend := scanned_meet hmid hfirst hlast hg.shows.sorted_contents
  refine ⟨_,_,hg.scan ..,hg.scan ..,?_,?_,fun k v => ?_⟩
  · rw [hg.scan,happend]
  · exact happend ▸ sorted_scanned hg first last
  · rw [← happend,mem_scanned hg fun _ => rfl,hg.get]
    cases Assoc.lookup k o.contents <;> simp [found]

theorem scans_meet_pair : Served compactedPair ∧ ∃ es es',
    (scan [] [2] compactedPair).1 = .ok es ∧ (scan [2] [] compactedPair).1 = .ok es' ∧
    (scan [] [] compactedPair).1 = .ok (es++es') ∧ Assoc.Sorted (es++es') ∧
    ∀ k v, (k,v) ∈ es++es' ↔ (get k compactedPair).1 = .ok v ∧ InRange [] [] k :=
  ⟨compactedPair_served,
    scans_meet compactedPair_served (by decide : ([2] : Bytes)≠[]) (.inl rfl) (.inl rfl)⟩

lemma Good.compacted (hg : Good s o) (hc : s.Compactable) (hrun : compact s = (.ok (),s')) :
    ∃ o', Good s' o' ∧ SameAnswers s s' := by
  obtain ⟨o',hg',-⟩ := hg.compact_accounts hc hrun
  refine ⟨o',hg',?_⟩
  cases o with
  | none =>
    obtain ⟨-,rfl⟩ := Prod.mk.inj (hg.compact_none.symm.trans hrun)
    exact ⟨fun _ => rfl,fun _ _ => rfl⟩
  | some y =>
    by_cases hne : entries y.1 y.2 = []
    · refine hg.same_answers (compact_empty hg hne hrun).1 ?_
      rw [show Root.contents (some y) = [] from hne]
      rfl
    · exact (hg.compact_same_iff hne hrun).mpr hc

lemma represents_compact {m : Key → Option Bytes} (hm : Represents s m) (hc : s.Compactable)
    (hrun : compact s = (.ok (),s')) :
    Represents s' m := by
  obtain ⟨o,hg,hin,hm⟩ := hm
  obtain ⟨o',hg',hsame⟩ := hg.compacted hc hrun
  have hvalue (k : Key) : (Assoc.lookup k o'.contents).map Slot.value =
    (Assoc.lookup k o.contents).map Slot.value := by
    have hget := hsame.1 k
    rw [hg.get,hg'.get] at hget
    cases h : Assoc.lookup k o.contents <;> cases h' : Assoc.lookup k o'.contents <;> simp_all [found]
  refine ⟨o',hg',fun x hx => ?_,fun k => (hm k).trans (hvalue k).symm⟩
  -- a value is as short after a compaction as it was before, since it is the same value
  have hstored := hvalue x.1
  rw [(Assoc.lookup_eq_some hg'.shows.sorted_contents).mpr hx] at hstored
  obtain ⟨e,he,hval⟩ := Option.map_eq_some_iff.mp hstored.symm
  exact hval ▸ hin _ (Assoc.mem_of_lookup he)

end Served

/-- A client's act or a compaction. -/
inductive Upkeep
  | act (a : Act)
  | compact

namespace Upkeep

def step : Upkeep → Store → Except Fail Res × Store
  | act a,s => a.step s
  | compact,s => ((KV.compact s).1.map fun _ => .done,(KV.compact s).2)

/-- A compaction returns nil, and there are no more entries than the parents of leaves have room for. -/
def Admitted : Upkeep → Store → Prop
  | act a,s => a.Inline ∧ s.Roomy
  | compact,s => s.Compactable ∧ (KV.compact s).1 = .ok ()

/-- A map is not changed by a compaction. -/
def spec : Upkeep → (Key → Option Bytes) → Except Fail Res → (Key → Option Bytes) → Prop
  | act a => a.spec
  | compact => fun m r m' => r = .ok .done ∧ m' = m

end Upkeep

lemma upkeep_step (u : Upkeep) (s : Store) (m : Key → Option Bytes) (hm : Represents s m)
    (h : u.Admitted s) :
    ∃ m', u.spec m (u.step s).1 m' ∧ Represents (u.step s).2 m' := by
  cases u with
  | act a => exact act_refines a s m hm h
  | compact => exact ⟨m,⟨by rw [Upkeep.step,h.2]; rfl,rfl⟩,represents_compact hm h.1 (Prog.run_ok h.2)⟩

/-- With short values every run in which compactions come between the calls has the results of an
ordered map. -/
theorem upkeep_refines_map {us : List Upkeep}
    (h : Machine.Allowed Upkeep.step Upkeep.Admitted us freshStore) :
    ∃ m, Machine.Trace Upkeep.spec (fun _ => none) us (Machine.run Upkeep.step us freshStore).1 m := by
  obtain ⟨m,ht,-⟩ := Machine.run_traces upkeep_step represents_fresh h
  exact ⟨m,ht⟩

theorem upkeep_refines_map_set_get :
    ∃ m, Machine.Trace Upkeep.spec (fun _ => none) [.act (.set [1] [2]),.compact,.act (.get [1])]
    (Machine.run Upkeep.step [.act (.set [1] [2]),.compact,.act (.get [1])] freshStore).1 m := by
  refine upkeep_refines_map ⟨⟨by decide,roomy_fresh⟩,
    ⟨⟨[([1],[2])],by decide +kernel,by decide,by decide⟩,by decide +kernel⟩,⟨by decide,?_⟩,trivial⟩
  unfold Store.Roomy
  decide +kernel

end Plomvix.KV
