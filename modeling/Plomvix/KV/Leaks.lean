import Plomvix.KV.Check

/-! Where the pages go. A `Set` takes pages for a split before it knows how many it needs, and no
write gives back the overflow pages of a value it replaces; a run that never does either loses
no page. -/
namespace Plomvix.KV
open Lib Pager BPlus
open Relation (ReflTransGen)

def Child (p : PageStore) (a b : ℕ) : Prop :=
  p.Live a ∧ ∃ ptrs ks, decodeInternalNode (p.view a) = .ok (ptrs,ks) ∧ b ∈ ptrs

def LeafPage (p : PageStore) (id : ℕ) (keys : List Key) (refs : List LeafValueRef) (next : ℕ) : Prop :=
  p.Live id ∧ decodeLeafNodeRefs (p.view id) = .ok (keys,refs,next)

def Follows (p : PageStore) (a b : ℕ) : Prop :=
  p.Live a ∧ ∃ part, decodeOverflowPage (p.view a) = .ok (b,part)

def Store.OnOverflow (s : Store) (id : ℕ) : Prop :=
  ∃ leaf keys refs next, ReflTransGen (Child s.pages) s.rootPageID leaf ∧
    LeafPage s.pages leaf keys refs next ∧
    ∃ ref ∈ refs, ref.hasOverflow = true ∧ ReflTransGen (Follows s.pages) ref.overflowPageID id

/-- The page is reached from the root. -/
def Store.InUse (s : Store) (id : ℕ) : Prop :=
  s.rootPageID≠rootSentinel ∧ (ReflTransGen (Child s.pages) s.rootPageID id ∨ s.OnOverflow id)

/-- Every data page is in use or on the free list. -/
def Store.NoLeak (s : Store) : Prop :=
  ∀ id, firstDataPageID ≤ id → id < s.pages.pageCount →
    id = metaPageID ∨ s.InUse id ∨ id ∈ s.pages.freeList

/-- A call that changes the store. -/
inductive Call
  | set (k : Key) (v : Bytes)
  | delete (k : Key)
  | compact

def Call.run : Call → Cmd Unit
  | .set k v => KV.set k v
  | .delete k => KV.delete k
  | .compact => KV.compact

/-- No value in the leaf of `k` is on overflow pages. -/
def Plain (s : Store) (k : Key) : Prop :=
  ∀ j ∈ leafKeys s k, ∀ w, (get j s).1 = .ok w → w.length ≤ maxValSize

def nodesAbove (s : Store) (k : Key) : List PathEntry :=
  if s.rootPageID = rootSentinel then []
  else match (findLeaf (s.pages.pageCount+1) s.rootPageID k s).1 with
    | .ok (path,_) => path
    | .error _ => []

/-- The condition for a call to lose no page. -/
def Call.Frugal (s : Store) : Call → Prop
  | .set k _ => Plain s k ∧ (k ∈ leafKeys s k ∨ (leafKeys s k).length < maxLeafKeys ∨
      ∀ e ∈ nodesAbove s k, e.keys.length = maxInternalKeys)
  | .delete k => (KV.get k s).1 = .error (.err .keyNotFound) ∨ Plain s k
  | .compact => s.Compactable

/-- Stores reached from an empty pager by successful calls that lose no page. -/
inductive Frugal : Store → Prop
  | opened {s : Store} (h : openStore (newBtreeStore .empty noFaults) = (.ok (),s)) : Frugal s
  | step {s : Store} (h : Frugal s) (hr : s.Roomy) (c : Call) (hok : (c.run s).1 = .ok ())
      (hc : c.Frugal s) : Frugal (c.run s).2

def Tight (p : PageStore) (o : Root) : Prop := ∀ id, p.Live id → id = metaPageID ∨ id ∈ o.pages

lemma Accounts.tight {p q : PageStore} {o o' : Root} (h : Accounts p o [] [] q o') (ht : Tight p o) :
    Tight q o' := by
  intro id hl
  obtain hnew | ⟨hold,-,hout⟩ := h id hl
  · exact .inr hnew
  · exact (ht id hold).imp_right fun hm => absurd (hout hm) List.not_mem_nil

section Reach
variable {s : Store} {o : Root}

lemma owned_reachable (hs : Sound s.pages) :
    Owned s.pages (ReflTransGen (Child s.pages) s.rootPageID) s.OnOverflow := by
  refine ⟨fun id hN hl _ a ha => ?_,fun id hN hl _ a ha => ?_,fun id hC hl r hr => ?_⟩
  · unfold overflowHeads at ha
    split at ha
    · rename_i keys refs next hd
      obtain ⟨ref,href,rfl⟩ := List.mem_map.mp ha
      obtain ⟨hm,hov⟩ := List.mem_filter.mp href
      exact ⟨id,keys,refs,next,hN,⟨hl,(view_idle hs.idle).symm ▸ hd⟩,ref,hm,hov,.refl⟩
    · cases ha
  · unfold childPointers at ha
    split at ha
    · rename_i ptrs ks hd
      exact hN.tail ⟨hl,ptrs,ks,(view_idle hs.idle).symm ▸ hd,ha⟩
    · cases ha
  · obtain ⟨leaf,keys,refs,next,hroot,hleaf,ref,hm,hov,hto⟩ := hC
    exact ⟨leaf,keys,refs,next,hroot,hleaf,ref,hm,hov,
      hto.tail ⟨hl,r.2,(view_idle hs.idle).symm ▸ hr⟩⟩

theorem Good.noLeak (hg : Good s o) (ht : Tight s.pages o) : s.NoLeak := by
  intro id h2 hlt
  by_cases hfree : id ∈ s.pages.freeList
  · exact .inr (.inr hfree)
  refine (ht id ⟨h2,hlt,hfree⟩).imp_right fun hm => .inl ?_
  cases o with
  | none => exact absurd hm List.not_mem_nil
  | some x =>
    have hrooted := hg.shows.tree x rfl
    have hroot : s.rootPageID = rootId x.1 x.2 := hg.shows.root_eq
    obtain ⟨hn,hov⟩ := (owned_reachable hg.shows.sound).covers hg.shows.sound hrooted (hroot ▸ .refl)
    refine ⟨hroot ▸ hrooted.root_ne hg.shows.sound,?_⟩
    exact (List.mem_append.mp hm).imp (hn id) (hov id)

end Reach

section Steps
variable {s s' : Store} {o : Root} {k : Key}

lemma Good.plain_iff (hg : Good s o) (k : Key) :
    Plain s k ↔ ∀ x ∈ o.leafAt k, x.2.value.length ≤ maxValSize := hg.leaf_iff k

lemma Slot.pages_short {e : Slot} (h : e.value.length ≤ maxValSize) : e.pages = [] := by
  cases e with
  | inline v hv => rfl
  | overflow v ids hl _ _ => exact absurd h (not_le.mpr hl)

lemma Good.plain_pages (hg : Good s o) (hp : Plain s k) : overflowPages (o.leafAt k) = [] :=
  List.flatMap_eq_nil_iff.mpr fun x hx => Slot.pages_short ((hg.plain_iff k).mp hp x hx)

lemma pathEntries_full {h H : ℕ} (c : Ctx Key Slot h H) (a : ℕ)
    (hf : ∀ e ∈ pathEntries c a, e.keys.length = maxInternalKeys) :
    ∀ f ∈ c.path, maxInternalKeys ≤ f.width := by
  induction c generalizing a with
  | root => exact fun f hm => absurd hm List.not_mem_nil
  | @step h H g up ih =>
    intro f hm
    cases List.mem_cons.mp hm with
    | inl he =>
      have hw := hf _ (List.mem_cons_self ..)
      rw [he,← hw]
      simp [entryOf,Frame.map,Frame.width]
    | inr hm => exact ih g.id (fun e he => hf e (List.mem_cons_of_mem _ he)) f hm

lemma Good.nodesAbove_full (hg : Good s o) (hf : ∀ e ∈ nodesAbove s k, e.keys.length = maxInternalKeys) :
    ∀ f ∈ o.pathAt k, maxInternalKeys ≤ f.width := by
  cases o with
  | none => exact fun f hm => absurd hm List.not_mem_nil
  | some x =>
    have hne : s.rootPageID≠rootSentinel := fun h => nomatch (shows_none_iff hg.shows).mpr h
    rw [nodesAbove,if_neg hne,findLeaf_ok hg.shows rfl (hg.healthy.clear _ _)] at hf
    exact pathEntries_full _ _ hf

lemma Good.set_tight (hg : Good s o) (hr : s.Roomy) {v : Bytes} (hok : (KV.set k v s).1 = .ok ())
    (hc : (Call.set k v).Frugal s) (ht : Tight s.pages o) :
    ∃ o', Good (KV.set k v s).2 o' ∧ Tight (KV.set k v s).2.pages o' := by
  by_cases h : k.length ≤ maxKeySize ∧ v.length+8 ≤ maxValSizeEnterprise
  · obtain ⟨s',o',e,hrun,hg',-,-,-,hacc⟩ := hg.set_ok hr h.1 h.2
    obtain ⟨hplain,hsnug⟩ := hc
    rw [hg.leafKeys,List.length_map] at hsnug
    rw [hg.plain_pages hplain] at hacc
    rw [hrun]
    exact ⟨o',hg',(hacc (hsnug.imp_right (.imp_right hg.nodesAbove_full))).tight ht⟩
  · obtain ⟨e,s',hrun,-⟩ := hg.set_error hr h
    rw [hrun] at hok
    cases hok

lemma Good.delete_tight (hg : Good s o) (hc : (Call.delete k).Frugal s) (ht : Tight s.pages o) :
    ∃ o', Good (KV.delete k s).2 o' ∧ Tight (KV.delete k s).2.pages o' := by
  by_cases h : k ∈ (o.leafAt k).map Prod.fst
  · obtain ⟨s',o',hrun,hg',-,hacc⟩ := hg.delete_present h
    have hplain : Plain s k := hc.resolve_left fun hx => (hg.absent_iff k).mp hx h
    rw [hg.plain_pages hplain] at hacc
    rw [hrun]
    exact ⟨o',hg',hacc.tight ht⟩
  · obtain ⟨s',hrun,hg',hp⟩ := hg.delete_absent h
    rw [hrun,hp]
    exact ⟨o,hg',ht⟩

lemma Good.compact_accounts (hg : Good s o) (hc : s.Compactable) (hrun : compact s = (.ok (),s')) :
    ∃ o', Good s' o' ∧ Accounts s.pages o [] [] s'.pages o' := by
  cases o with
  | none =>
    obtain ⟨-,rfl⟩ := Prod.mk.inj (hg.compact_none.symm.trans hrun)
    exact ⟨none,hg,fun _ hid => .inr ⟨hid,List.not_mem_nil,id⟩⟩
  | some y =>
    by_cases hne : entries y.1 y.2 = []
    · exact ⟨none,compact_empty hg hne hrun⟩
    · obtain ⟨hsmall,hshort⟩ := hg.compactable_iff.mp hc
      obtain ⟨ids,ws,x,hld,hin,hnd,hlive⟩ := compact_loaded hg hne hrun
      have hl := (hg.shows.tree y rfl).loadable
      refine ⟨some x,hld.good hin (hin.rooted hld (by simpa [listed] using hne) hsmall hnd hl hshort),?_⟩
      intro id hid
      obtain hm | ⟨hold,hout⟩ := hlive id hid
      · exact .inl (List.mem_append_left _ (hld.whole id (hld.tight hshort hm)))
      · exact .inr ⟨hold,List.not_mem_nil,fun hm => absurd hm hout⟩

end Steps

theorem Frugal.tight {s : Store} (h : Frugal s) : ∃ o, Good s o ∧ Tight s.pages o := by
  induction h with
  | opened h =>
    obtain ⟨s',hrun,hg,hcount⟩ := open_fresh
    rw [hrun] at h
    cases h
    refine ⟨none,hg,fun id hl => .inl ?_⟩
    have hlt := hl.2.1
    rw [hcount] at hlt
    exact le_antisymm (Nat.lt_succ_iff.mp hlt) hl.1
  | step h hr c hok hc ih =>
    obtain ⟨o,hg,ht⟩ := ih
    cases c with
    | set k v => exact hg.set_tight hr hok hc ht
    | delete k => exact hg.delete_tight hc ht
    | compact =>
      obtain ⟨o',hg',hacc⟩ := hg.compact_accounts hc (Prog.run_ok hok)
      exact ⟨o',hg',hacc.tight ht⟩

theorem frugal_run_leaks_nothing {s : Store} (h : Frugal s) : s.NoLeak := by
  obtain ⟨o,hg,ht⟩ := h.tight
  exact hg.noLeak ht

theorem frugal_run_three_calls : (compact (delete [1] (set [1] [2] freshStore).2).2).2.NoLeak := by
  obtain ⟨s,hopen,-⟩ := open_fresh
  have hs : freshStore = s := by rw [freshStore,hopen]
  have hfirst : Plain freshStore [1] := by
    have hkeys : leafKeys freshStore [1] = [] := by decide +kernel
    intro j hj
    rw [hkeys] at hj
    exact absurd hj List.not_mem_nil
  have hsecond : Plain (set [1] [2] freshStore).2 [1] := by
    have hkeys : leafKeys (set [1] [2] freshStore).2 [1] = [[1]] := by decide +kernel
    have hget : (get [1] (set [1] [2] freshStore).2).1 = .ok [2] := by decide +kernel
    intro j hj w hw
    rw [hkeys,List.mem_singleton] at hj
    rw [hj,hget] at hw
    cases hw
    decide
  have h0 : Frugal freshStore := hs ▸ .opened hopen
  have h1 : Frugal (set [1] [2] freshStore).2 :=
    h0.step roomy_fresh (.set [1] [2]) (by decide +kernel) ⟨hfirst,.inr (.inl (by decide +kernel))⟩
  have h2 : Frugal (delete [1] (set [1] [2] freshStore).2).2 :=
    h1.step (by unfold Store.Roomy; decide +kernel) (.delete [1]) (by decide +kernel) (.inr hsecond)
  exact frugal_run_leaks_nothing
    (h2.step (by unfold Store.Roomy; decide +kernel) .compact (by decide +kernel)
    ⟨[],by decide +kernel,by decide,fun e he => absurd he List.not_mem_nil⟩)

/-- The overflow page of a deleted value is not free after `Compact` either, which leaves no tree. -/
theorem delete_leaks_overflow_page :
    ∃ s, s = (set [97] longValue freshStore).2 ∧ (set [97] longValue freshStore).1 = .ok () ∧
      (delete [97] s).1 = .ok () ∧ (compact (delete [97] s).2).1 = .ok () ∧
        ¬(compact (delete [97] s).2).2.NoLeak := by
  refine ⟨_,rfl,by decide +kernel,by decide +kernel,by decide +kernel,fun h => ?_⟩
  have hcount : 3 < (compact
    (delete [97] (set [97] longValue freshStore).2).2).2.pages.pageCount := by decide +kernel
  obtain hm | ⟨hroot,-⟩ | hf := h 3 (by decide) hcount
  · exact absurd hm (by decide)
  · exact hroot (by decide +kernel)
  · exact absurd hf (by decide +kernel)

end Plomvix.KV
