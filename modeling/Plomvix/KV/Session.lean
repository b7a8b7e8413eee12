import Plomvix.KV.Effect

/-! A store over a pager without faults: opening it, and the two ways in which a write ends. -/
namespace Plomvix.KV
open Lib Pager BPlus

def noFaults : PagerCall → ℕ → Bool := fun _ _ => false

/-- An open store over a healthy pager, with the tree it shows. -/
structure Good (s : Store) (o : Root) : Prop where
  healthy : s.Healthy
  opened : s.Opened
  shows : Shows s.pages s.rootPageID o

section Open

lemma allocate_empty : ∃ p, PageStore.empty.allocatePage = (.ok metaPageID,p) ∧ p.txn = none ∧
    p.freeList = [] ∧ p.pageCount = metaPageID+1 := by
  have hlt : firstDataPageID < maxPages := by decide
  refine ⟨⟨firstDataPageID+1,[],Function.update PageStore.empty.body firstDataPageID zeroBody,none⟩,?_,
    rfl,rfl,rfl⟩
  simp [PageStore.allocatePage,PageStore.empty,hlt,metaPageID]

theorem open_fresh : ∃ s, openStore (newBtreeStore .empty noFaults) = (.ok (),s) ∧ Good s none ∧
    s.pages.pageCount = 3 := by
  obtain ⟨p,hp,htx,hfree,hcount⟩ := allocate_empty
  have hlive : p.Live metaPageID := by
    refine ⟨le_refl _,?_,?_⟩
    · rw [hcount]
      exact Nat.lt_succ_self _
    · rw [hfree]
      exact List.not_mem_nil
  let s₀ := newBtreeStore .empty noFaults
  let s₁ := (s₀.after .count 1 .empty).after .alloc 1 p
  have hcnt : wrap "kv: page count" pageCount s₀ = (.ok firstDataPageID,s₀.after .count 1 .empty) :=
    wrap_ok (call_ok rfl rfl)
  have halloc : wrap "kv: allocate meta page" allocatePage (s₀.after .count 1 .empty) =
    (.ok metaPageID,s₁) :=
    wrap_ok (call_ok rfl hp)
  have hbegin : Ends (wrap "kv: begin tx for meta init" beginTx) s₁ (some ()) (begun s₁) :=
    (begin_ok htx rfl).wrap _
  have hwrite := ((writes_page metaPageID (encodeMetaPage rootSentinel)) (begun s₁) rfl fun w hw => by
    rw [List.mem_singleton.mp hw]
    exact ⟨hlive,encodeMetaPage_length _⟩).1 fun i _ => rfl
  have hcommit := (commit_ok (s := (begun s₁).after .write 1
    (buffered (begun s₁).pages [(metaPageID,encodeMetaPage rootSentinel)])) rfl rfl).wrap
    "kv: commit meta init"
  have hbody := hbegin.bind (f := fun _ => do
    orRollback (wrap "kv: write meta page" (writePage metaPageID (encodeMetaPage rootSentinel)))
    wrap "kv: commit meta init" commitTx
    Prog.modify fun s => { s with isOpen := true })
    ((hwrite.wrap _).orRollback.bind (hcommit.bind (r := some ()) rfl))
  refine ⟨_,(Prog.bind_ok (Prog.get_run s₀)).trans ((Prog.bind_ok hcnt).trans
    ((Prog.bind_ok halloc).trans hbody)),⟨fun _ _ => rfl,⟨rfl,rfl⟩,?_,?_,rfl,fun x hx =>
      nomatch hx⟩,hcount⟩
  · refine ⟨rfl,?_,?_,?_,?_⟩
    · change p.pageCount ≤ maxPages
      rw [hcount]
      decide
    · change p.freeList.Nodup
      rw [hfree]
      exact List.nodup_nil
    · change ∀ id ∈ p.freeList, _
      rw [hfree]
      exact fun id hid => absurd hid List.not_mem_nil
    · change metaPageID < p.pageCount
      rw [hcount]
      exact Nat.lt_succ_self _
  · change decodeMetaPage ((buffered (begun s₁).pages [(metaPageID,encodeMetaPage rootSentinel)]).view
      metaPageID) = _
    rw [view_buffered rfl,patch_mem (by simp) (List.mem_singleton_self _)]
    exact decodeMetaPage_encode (by decide)

theorem open_again {p : PageStore} {root : ℕ} {o : Root} (hs : Shows p root o) :
    ∃ s, openStore (newBtreeStore p noFaults) = (.ok (),s) ∧ Good s o ∧ s.pages = p := by
  let s₀ := newBtreeStore p noFaults
  have hcnt : wrap "kv: page count" pageCount s₀ = (.ok p.pageCount,s₀.after .count 1 p) :=
    wrap_ok (call_ok rfl rfl)
  have hne : p.pageCount≠firstDataPageID := hs.sound.meta_lt.ne'
  have hread : wrap "kv: read meta page" (readPage metaPageID) (s₀.after .count 1 p) =
      (.ok (p.view metaPageID),(s₀.after .count 1 p).tick .read 1) :=
    wrap_ok (readPage_ok hs.sound.live_meta rfl)
  have hdec : wrap "kv: decode meta page" (codec (decodeMetaPage (p.view metaPageID)))
      ((s₀.after .count 1 p).tick .read 1) = (.ok root,(s₀.after .count 1 p).tick .read 1) := by
    rw [view_idle hs.sound.idle]
    exact wrap_ok (codec_ok hs.meta_page _)
  refine ⟨{ (s₀.after .count 1 p).tick .read 1 with rootPageID := root, isOpen := true },?_,
    ⟨fun _ _ => rfl,⟨rfl,rfl⟩,hs⟩,rfl⟩
  refine (Prog.bind_ok (Prog.get_run s₀)).trans ((Prog.bind_ok hcnt).trans ?_)
  rw [if_neg hne]
  exact (Prog.bind_ok hread).trans (Prog.bind_ok hdec)

end Open

section Good
variable {s : Store} {k : Key} {v : Bytes} {o : Root}

lemma Good.arrives (hg : Good s o) (k : Key) (v : Bytes) : Arrives s k v :=
  ⟨hg.healthy.clear _ _,Store.Healthy.clear (hg.healthy.tick _ _) _ _⟩

lemma Prepared.good {x : Cmd Unit} {s₁ : Store} {n : ℕ} {o' : Root} (h : Prepared x s s₁ n o')
    (hg : Good s o) : ∃ s', x s = (.ok (),s') ∧ Good s' o' ∧ s'.pages.pageCount = s₁.pages.pageCount ∧
      s'.pages.freeList = s₁.pages.freeList := by
  obtain ⟨s',hrun,hsh,hf,hopen,hclosed,hcount⟩ :=
    h.commits (hg.healthy ..) (hg.healthy.clear _ _) (hg.healthy ..)
  refine ⟨s',hrun,⟨fun c n => ?_,⟨hopen.trans hg.opened.1,hclosed.trans hg.opened.2⟩,hsh⟩,hcount⟩
  rw [hf]
  exact hg.healthy c n

lemma Undone.good {x : Cmd Unit} (h : Undone x s o) (hg : Good s o) :
    ∃ e s', x s = (.error (.err e),s') ∧ Good s' o := by
  obtain ⟨e,s',hrun,hsh,hf,hopen,hclosed⟩ := h
  refine ⟨e,s',hrun,fun c n => ?_,⟨hopen.trans hg.opened.1,hclosed.trans hg.opened.2⟩,hsh⟩
  rw [hf]
  exact hg.healthy c n

theorem Good.set_first (hg : Good s none) (hr : s.Roomy) (hk : k.length ≤ maxKeySize)
    (hv : v.length+8 ≤ maxValSizeEnterprise) :
    ∃ s' a e, set k v s = (.ok (),s') ∧ Good s' (some ⟨0,.leaf ⟨a,[(k,e)]⟩⟩) ∧ e.value = v ∧
      s'.pages.pageCount ≤ s.pages.pageCount+overflowCount v+1 := by
  obtain ⟨s₁,a,e,hval,hpr,hn,-⟩ := set_prepared_first hg.shows hg.opened hr hk (by omega) (hg.arrives k v)
    (hg.healthy.clear _ _) hv rfl
  obtain ⟨s',hrun,hg',hcount⟩ := hpr.good hg
  exact ⟨s',a,e,hrun,hg',hval,hcount.1 ▸ hn⟩

theorem Good.set_ok (hg : Good s o) (hr : s.Roomy) (hk : k.length ≤ maxKeySize)
    (hv : v.length+8 ≤ maxValSizeEnterprise) :
    ∃ s' o' e, set k v s = (.ok (),s') ∧ Good s' o' ∧ e.value = v ∧
      o'.contents = o.withLeaf k (Assoc.put k e (flatten (o.leafAt k))) ∧
      s'.pages.pageCount ≤ s.pages.pageCount+overflowCount v+(setFootprint s k).nodes ∧
      (o.Snug k → Accounts s.pages o [] (overflowPages (o.leafAt k)) s'.pages o') := by
  obtain ⟨s₁,o',e,hval,hpr,hc,hn,hacc⟩ := set_prepared hg.shows hg.opened hr hk (by omega) (hg.arrives k v)
    (hg.healthy.clear _ _) hv
  obtain ⟨s',hrun,hg',hcount⟩ := hpr.good hg
  exact ⟨s',o',e,hrun,hg',hval,hc,hcount.1 ▸ hn,fun h => (hacc h).live_eq hcount⟩

theorem Good.set_error (hg : Good s o) (hr : s.Roomy)
    (h : ¬(k.length ≤ maxKeySize ∧ v.length+8 ≤ maxValSizeEnterprise)) :
    ∃ e s', set k v s = (.error (.err e),s') ∧ Good s' o := by
  by_cases hk : k.length ≤ maxKeySize
  · by_cases hv : v.length ≤ maxValSizeEnterprise
    · have hbig : maxValSizeEnterprise < v.length+8 := not_le.mp fun hx => h ⟨hk,hx⟩
      have ho := set_oversize hg.shows hg.opened hr hk hv (hg.arrives k v) (hg.healthy.clear _ _) hbig
      split at ho
      · obtain ⟨s₁,hd⟩ := ho
        exact (hd.rolls_back hg.shows (hg.healthy ..) (hg.healthy ..)).good hg
      · exact ho.good hg
    · refine ⟨.valueTooLarge,s,?_,hg⟩
      rw [set,if_neg (not_lt.mpr hk),if_pos (not_le.mp hv)]
      rfl
  · refine ⟨.keyTooLarge,s,?_,hg⟩
    rw [set,if_pos (not_le.mp hk)]
    rfl

theorem Good.delete_absent (hg : Good s o) (hk : k ∉ (o.leafAt k).map Prod.fst) :
    ∃ s', delete k s = (.ok (),s') ∧ Good s' o ∧ s'.pages = s.pages := by
  obtain ⟨m,hrun⟩ := KV.delete_absent hg.shows hg.opened (hg.healthy.clear _ _) hk
  exact ⟨_,hrun,⟨hg.healthy,hg.opened,hg.shows⟩,rfl⟩

theorem Good.delete_present (hg : Good s o) (hk : k ∈ (o.leafAt k).map Prod.fst) :
    ∃ s' o', delete k s = (.ok (),s') ∧ Good s' o' ∧
      o'.contents = o.withLeaf k (Assoc.erase k (flatten (o.leafAt k))) ∧
      Accounts s.pages o [] (overflowPages (o.leafAt k)) s'.pages o' := by
  obtain ⟨s₁,o',hpr,hc,hacc⟩ := delete_prepared hg.shows hg.opened (hg.healthy.clear _ _) hk
  obtain ⟨s',hrun,hg',hcount⟩ := hpr.good hg
  exact ⟨s',o',hrun,hg',hc,hacc.live_eq hcount⟩

theorem Good.get (hg : Good s o) (k : Key) : (get k s).1 = found (Assoc.lookup k o.contents) := by
  obtain ⟨m,hrun⟩ := get_ok hg.healthy hg.opened hg.shows k
  rw [hrun]

end Good

/-- A write operation of the store. -/
inductive Op
  | set (k : Key) (v : Bytes)
  | delete (k : Key)

def Op.key : Op → Key
  | .set k _ => k
  | .delete k => k

def Op.run : Op → Cmd Unit
  | .set k v => KV.set k v
  | .delete k => KV.delete k

/-- Stores reached from an empty pager by writes without faults, never close to the pager's
last address. -/
inductive Reached : Store → Prop
  | opened {s : Store} (h : openStore (newBtreeStore .empty noFaults) = (.ok (),s)) : Reached s
  | step {s : Store} (h : Reached s) (hr : s.Roomy) (op : Op) : Reached (op.run s).2

lemma Good.step {s : Store} {o : Root} (hg : Good s o) (hr : s.Roomy) (op : Op) :
    ∃ o', Good (op.run s).2 o' := by
  cases op with
  | set k v =>
    by_cases h : k.length ≤ maxKeySize ∧ v.length+8 ≤ maxValSizeEnterprise
    · obtain ⟨s',o',e,hrun,hg',-⟩ := hg.set_ok hr h.1 h.2
      exact ⟨o',by rw [Op.run,hrun]; exact hg'⟩
    · obtain ⟨e,s',hrun,hg'⟩ := hg.set_error hr h
      exact ⟨o,by rw [Op.run,hrun]; exact hg'⟩
  | delete k =>
    by_cases h : k ∈ (o.leafAt k).map Prod.fst
    · obtain ⟨s',o',hrun,hg',-⟩ := hg.delete_present h
      exact ⟨o',by rw [Op.run,hrun]; exact hg'⟩
    · obtain ⟨s',hrun,hg',-⟩ := hg.delete_absent h
      exact ⟨o,by rw [Op.run,hrun]; exact hg'⟩

theorem Reached.good {s : Store} (h : Reached s) : ∃ o, Good s o := by
  induction h with
  | opened h =>
    obtain ⟨s',hrun,hg,-⟩ := open_fresh
    rw [hrun] at h
    cases h
    exact ⟨none,hg⟩
  | step h hr op ih =>
    obtain ⟨o,hg⟩ := ih
    exact hg.step hr op
end Plomvix.KV
