import Plomvix.KV.Session

/-! What a write does to the other keys. The leaf of the key is decoded and encoded again, and
a long value in it does not survive that; all other leaves are left alone. -/
namespace Plomvix.KV
open Lib Pager BPlus

section Contents
variable {p : PageStore} {root : ℕ} {o : Root} {k j : Key} {es : List (Key × Slot)}

lemma Shows.sorted_contents (hs : Shows p root o) : Assoc.Sorted o.contents := by
  cases o with
  | none => exact List.Pairwise.nil
  | some x => exact (hs.tree x rfl).ordered.sorted_entries

lemma Shows.leafAt_subset (hs : Shows p root o) {e : Key × Slot} (he : e ∈ o.leafAt k) :
    e ∈ o.contents := by
  cases o with
  | none => exact absurd he List.not_mem_nil
  | some x => exact (located_of_descend rfl).mem_entries he

lemma Shows.lookup_leafAt (hs : Shows p root o) (k : Key) :
    Assoc.lookup k o.contents = Assoc.lookup k (o.leafAt k) := by
  cases o with
  | none => rfl
  | some x => exact (located_of_descend rfl).lookup (hs.tree x rfl).ordered

lemma Shows.lookup_withLeaf_self (hs : Shows p root o) (k : Key) (es : List (Key × Slot)) :
    Assoc.lookup k (o.withLeaf k es) = Assoc.lookup k es := by
  cases o with
  | none => rfl
  | some x =>
    have hl := located_of_descend (t := x.2) (k := k) rfl
    exact Assoc.lookup_middle (hl.left (hs.tree x rfl).ordered) (hl.right (hs.tree x rfl).ordered)

theorem Shows.lookup_withLeaf (hs : Shows p root o) (k : Key)
    (he : Assoc.lookup j es = (Assoc.lookup j (o.leafAt k)).map Slot.flat) :
    Assoc.lookup j (o.withLeaf k es) =
      if j ∈ (o.leafAt k).map Prod.fst then (Assoc.lookup j o.contents).map Slot.flat
      else Assoc.lookup j o.contents := by
  cases o with
  | none => simpa [Root.leafAt,Root.withLeaf,Root.contents,Assoc.lookup] using he
  | some x =>
    have hl := located_of_descend (t := x.2) (k := k) rfl
    have hsort := hs.sorted_contents
    change Assoc.Sorted (entries x.1 x.2) at hsort
    change Assoc.lookup j (_++es++_) = if _ then (Assoc.lookup j (entries x.1 x.2)).map _ else
      Assoc.lookup j (entries x.1 x.2)
    rw [hl.entries_eq] at hsort ⊢
    have hparts := (Assoc.sorted_append.mp (Assoc.sorted_append.mp hsort).1).2.2
    simp only [Assoc.lookup_append,he]
    by_cases hm : j ∈ (Root.leafAt k (some x)).map Prod.fst
    · rw [if_pos hm]
      obtain ⟨e,hem,rfl⟩ := List.mem_map.mp hm
      have hleft : Assoc.lookup e.1 (descend (.upper k) x.1 x.2 .root).1.entriesL = none :=
        Assoc.lookup_none fun y hy => (hparts y hy e hem).ne
      have hin : Assoc.lookup e.1 (descend (.upper k) x.1 x.2 .root).2.entries = some e.2 :=
        (Assoc.lookup_eq_some (Assoc.sorted_append.mp (Assoc.sorted_append.mp hsort).1).2.1).mpr hem
      have hin' : Assoc.lookup e.1 (Root.leafAt k (some x)) = some e.2 := hin
      rw [hleft,hin,hin']
      rfl
    · rw [if_neg hm]
      have hout : Assoc.lookup j (descend (.upper k) x.1 x.2 .root).2.entries = none :=
        Assoc.lookup_none fun y hy hyj => hm (exists_key_iff.mp ⟨y,hy,hyj⟩)
      have hout' : Assoc.lookup j (Root.leafAt k (some x)) = none := hout
      rw [hout,hout']
      rfl

/-- The other keys keep their values exactly when none of them has a long value in the leaf. -/
theorem Shows.frame_iff (hs : Shows p root o)
    (he : ∀ j, j≠k → Assoc.lookup j es = (Assoc.lookup j (o.leafAt k)).map Slot.flat) :
    (∀ j, j≠k → found (Assoc.lookup j (o.withLeaf k es)) = found (Assoc.lookup j o.contents)) ↔
      ∀ x ∈ o.leafAt k, x.1≠k → x.2.value.length ≤ maxValSize := by
  constructor
  · intro h x hx hxk
    have hold : Assoc.lookup x.1 o.contents = some x.2 :=
      (Assoc.lookup_eq_some hs.sorted_contents).mpr (hs.leafAt_subset hx)
    have hj := h x.1 hxk
    rw [hs.lookup_withLeaf k (he x.1 hxk),if_pos (List.mem_map_of_mem hx),hold] at hj
    by_contra hlong
    apply Slot.flat_value_ne (not_le.mp hlong)
    simpa [found] using hj
  · intro h j hjk
    rw [hs.lookup_withLeaf k (he j hjk)]
    split
    · rename_i hm
      obtain ⟨x,hx,rfl⟩ := List.mem_map.mp hm
      have hold : Assoc.lookup x.1 o.contents = some x.2 :=
        (Assoc.lookup_eq_some hs.sorted_contents).mpr (hs.leafAt_subset hx)
      rw [hold,Option.map_some,Slot.flat_eq_self (h x hx hjk)]
    · rfl

end Contents

/-- The keys of the leaf in which a key belongs, as the descent of `setInTree` finds it. -/
def leafKeys (s : Store) (k : Key) : List Key :=
  if s.rootPageID = rootSentinel then []
  else match (findLeaf (s.pages.pageCount+1) s.rootPageID k s).1 with
    | .ok (_,_,keys,_,_) => keys
    | .error _ => []

/-- No other key in the leaf of `k` has a value on overflow pages. -/
def Undisturbed (s : Store) (k : Key) : Prop :=
  ∀ j ∈ leafKeys s k, j≠k → ∀ w, (get j s).1 = .ok w → w.length ≤ maxValSize

/-- The condition for a write to keep the other keys: a `Delete` of an absent key always does. -/
def Op.Spares (s : Store) : Op → Prop
  | .set k _ => Undisturbed s k
  | .delete k => (KV.get k s).1 = .error (.err .keyNotFound) ∨ Undisturbed s k

section Law
variable {s : Store} {o : Root} {k : Key}

lemma Good.leafKeys (hg : Good s o) (k : Key) : leafKeys s k = (o.leafAt k).map Prod.fst := by
  have hempty := shows_none_iff hg.shows
  unfold KV.leafKeys
  cases hn : o with
  | none => rw [if_pos (hempty.mp hn)]; rfl
  | some x =>
    have hs := hg.shows
    rw [hn] at hs
    have hne : s.rootPageID≠rootSentinel := fun h => (nomatch hn.symm.trans (hempty.mpr h))
    rw [if_neg hne,findLeaf_ok hs rfl (hg.healthy.clear _ _)]
    exact flatten_keys _

lemma Good.leaf_iff (hg : Good s o) (k : Key) {P : Key → Bytes → Prop} :
    (∀ j ∈ KV.leafKeys s k, ∀ w, (KV.get j s).1 = .ok w → P j w) ↔ ∀ x ∈ o.leafAt k, P x.1 x.2.value := by
  rw [hg.leafKeys]
  have hval (x : Key × Slot) (hx : x ∈ o.leafAt k) : (KV.get x.1 s).1 = .ok x.2.value := by
    rw [hg.get,(Assoc.lookup_eq_some hg.shows.sorted_contents).mpr (hg.shows.leafAt_subset hx)]
    rfl
  constructor
  · intro h x hx
    exact h x.1 (List.mem_map_of_mem hx) _ (hval x hx)
  · intro h j hj w hw
    obtain ⟨x,hx,rfl⟩ := List.mem_map.mp hj
    rw [hval x hx] at hw
    cases hw
    exact h x hx

lemma Good.undisturbed_iff (hg : Good s o) (k : Key) :
    Undisturbed s k ↔ ∀ x ∈ o.leafAt k, x.1≠k → x.2.value.length ≤ maxValSize := by
  rw [← hg.leaf_iff k (P := fun j w => j≠k → w.length ≤ maxValSize)]
  exact ⟨fun h j hj w hw hjk => h j hj hjk w hw,fun h j hj hjk w hw => h j hj w hw hjk⟩

lemma Good.absent_iff (hg : Good s o) (k : Key) :
    (KV.get k s).1 = .error (.err .keyNotFound) ↔ k ∉ (o.leafAt k).map Prod.fst := by
  rw [hg.get,hg.shows.lookup_leafAt]
  cases hl : Assoc.lookup k (o.leafAt k) with
  | none =>
    refine iff_of_true rfl fun hm => ?_
    obtain ⟨x,hx,rfl⟩ := List.mem_map.mp hm
    have hin := (Assoc.lookup_eq_some hg.shows.sorted_contents).mpr (hg.shows.leafAt_subset hx)
    rw [hg.shows.lookup_leafAt,hl] at hin
    cases hin
  | some e =>
    refine iff_of_false (fun h => by cases h) (not_not.mpr ?_)
    exact List.mem_map_of_mem (f := Prod.fst) (Assoc.mem_of_lookup hl)

lemma lookup_put_other (e : Slot) (es : List (Key × Slot)) {j : Key} (hj : j≠k) :
    Assoc.lookup j (Assoc.put k e (flatten es)) = (Assoc.lookup j es).map Slot.flat := by
  rw [Assoc.lookup_put,if_neg hj]
  exact Assoc.lookup_map Slot.flat j es

lemma lookup_erase_other (es : List (Key × Slot)) {j : Key} (hj : j≠k) :
    Assoc.lookup j (Assoc.erase k (flatten es)) = (Assoc.lookup j es).map Slot.flat := by
  rw [Assoc.lookup_erase,if_neg hj]
  exact Assoc.lookup_map Slot.flat j es

theorem Good.set_frame_iff (hg : Good s o) (hr : s.Roomy) {v : Bytes} (hok : (set k v s).1 = .ok ()) :
    (∀ j, j≠k → (KV.get j (set k v s).2).1 = (KV.get j s).1) ↔ Undisturbed s k := by
  by_cases h : k.length ≤ maxKeySize ∧ v.length+8 ≤ maxValSizeEnterprise
  · obtain ⟨s',o',e,hrun,hg',-,hc,-⟩ := hg.set_ok hr h.1 h.2
    rw [hrun,hg.undisturbed_iff,← hg.shows.frame_iff fun j hj => lookup_put_other e (o.leafAt k) hj]
    simp only [hg'.get,hg.get,hc]
  · obtain ⟨e,s',hrun,-⟩ := hg.set_error hr h
    rw [hrun] at hok
    cases hok

theorem Good.delete_frame_iff (hg : Good s o) :
    (∀ j, j≠k → (KV.get j (delete k s).2).1 = (KV.get j s).1) ↔
      (KV.get k s).1 = .error (.err .keyNotFound) ∨ Undisturbed s k := by
  rw [hg.absent_iff]
  by_cases h : k ∈ (o.leafAt k).map Prod.fst
  · obtain ⟨s',o',hrun,hg',hc,-⟩ := hg.delete_present h
    rw [hrun,hg.undisturbed_iff,← hg.shows.frame_iff fun j hj => lookup_erase_other (o.leafAt k) hj,
      or_iff_right (not_not.mpr h)]
    simp only [hg'.get,hg.get,hc]
  · obtain ⟨s',hrun,hg',-⟩ := hg.delete_absent h
    refine iff_of_true (fun j _ => ?_) (.inl h)
    rw [hrun,hg'.get,hg.get]

end Law

/-- The frame law, with the exact condition on the state before the write. -/
theorem write_keeps_other_keys_iff {s : Store} (h : Reached s) (hr : s.Roomy) (op : Op)
    (hok : (op.run s).1 = .ok ()) :
    (∀ j, j≠op.key → (get j (op.run s).2).1 = (get j s).1) ↔ op.Spares s := by
  obtain ⟨o,hg⟩ := h.good
  cases op with
  | set k v => exact hg.set_frame_iff hr hok
  | delete k => exact hg.delete_frame_iff

/-- The store right after its first opening. -/
def freshStore : Store := (openStore (newBtreeStore .empty noFaults)).2

lemma freshStore_good : Good freshStore none ∧ freshStore.pages.pageCount = 3 := by
  obtain ⟨s,hrun,hg,hc⟩ := open_fresh
  rw [freshStore,hrun]
  exact ⟨hg,hc⟩

lemma reached_fresh : Reached freshStore := by
  obtain ⟨s,hrun,-⟩ := open_fresh
  rw [freshStore,hrun]
  exact .opened hrun

lemma roomy_fresh : freshStore.Roomy := by
  rw [Store.Roomy,freshStore_good.2]
  norm_num

/-- One entry, in a leaf of its own. -/
def oneStore : Store := (set [1] [2] freshStore).2

lemma oneStore_reached : Reached oneStore := .step reached_fresh roomy_fresh (.set [1] [2])

lemma oneStore_roomy : oneStore.Roomy := by
  unfold Store.Roomy
  decide +kernel

/-- A second entry in the leaf: the first is short, and no other answer changes. -/
theorem write_keeps_neighbour : leafKeys oneStore [3] = [[1]] ∧
    ∀ j, j≠[3] → (get j ((Op.set [3] [4]).run oneStore).2).1 = (get j oneStore).1 := by
  have hkeys : leafKeys oneStore [3] = [[1]] := by decide +kernel
  have hget : (get [1] oneStore).1 = .ok [2] := by decide +kernel
  have hspares : (Op.set [3] [4]).Spares oneStore := by
    intro j hj _ w hw
    rw [hkeys] at hj
    obtain rfl := List.mem_singleton.mp hj
    obtain rfl := Except.ok.inj (hget.symm.trans hw)
    decide
  have hok : ((Op.set [3] [4]).run oneStore).1 = .ok () := by decide +kernel
  exact ⟨hkeys,(write_keeps_other_keys_iff oneStore_reached oneStore_roomy _ hok).mpr hspares⟩

/-- Two entries in one leaf. -/
def pairStore : Store := (set [3] [4] oneStore).2

lemma pairStore_reached : Reached pairStore := .step oneStore_reached oneStore_roomy (.set [3] [4])

/-- One byte more than a leaf slot holds. -/
def longValue : Bytes := List.replicate 513 7

lemma longValue_length : longValue.length = 513 := List.length_replicate ..

/-- A value of 513 bytes, stored on an overflow page, is lost when its leaf is written again. -/
theorem neighbour_value_lost :
    ∃ s, s = ((Op.set [97] longValue).run freshStore).2 ∧ Reached s ∧ s.Roomy ∧
      (set [98] [120] s).1 = .ok () ∧ (get [97] s).1 = .ok longValue ∧
      (get [97] (set [98] [120] s).2).1≠.ok longValue := by
  obtain ⟨hf,hf3⟩ := freshStore_good
  have hfits : longValue.length+8 ≤ maxValSizeEnterprise := by
    rw [longValue_length]
    decide
  obtain ⟨s,a,e,hrun,hg,hval,hcount⟩ := hf.set_first roomy_fresh (k := [97]) (by decide) hfits
  have hs : ((Op.set [97] longValue).run freshStore).2 = s := by rw [Op.run,hrun]
  have hroomy : s.Roomy := by
    have hle := overflowCount_le (v := longValue) (by omega)
    simp only [Store.Roomy]
    omega
  obtain ⟨s',o',e',hrun',hg',-,hc,-⟩ := hg.set_ok hroomy (k := [98]) (v := [120]) (by decide) (by decide)
  refine ⟨s,hs.symm,hs ▸ reached_fresh.step roomy_fresh _,hroomy,by rw [hrun'],?_,fun heq => ?_⟩
  · rw [hg.get,← hval]
    rfl
  · have hne : ([97] : Key)≠[98] := by decide
    have hlook := hg.shows.lookup_withLeaf [98] (lookup_put_other e' _ hne)
    have hmem : ([97] : Key) ∈ (Root.leafAt [98] (some ⟨0,.leaf ⟨a,[([97],e)]⟩⟩)).map Prod.fst :=
      List.mem_singleton_self _
    rw [hrun',hg'.get,hc,hlook,if_pos hmem] at heq
    apply Slot.flat_value_ne (s := e)
    · rw [hval,longValue_length]
      decide
    · rw [hval]
      exact Except.ok.inj heq

end Plomvix.KV
