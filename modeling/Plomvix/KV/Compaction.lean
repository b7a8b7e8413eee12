import Plomvix.KV.Reclaim
import Plomvix.KV.Rebuild
import Plomvix.KV.Frame

/-! What `Compact` does to the contents. The new tree answers as the old one did exactly when
its leaves fit under one node and no value needs overflow pages. -/
namespace Plomvix.KV
open Lib Pager BPlus

section Inversion
variable {s s' : Store}

lemma of_writePage (hi : s.pages.txn = none) {id : ℕ} {b : Bytes} (h : writePage id b s = (.ok (),s')) :
    s.pages.Live id ∧ s' = s.after .write 1 (written s.pages [(id,b)]) := by
  obtain ⟨p,hp,rfl⟩ := of_call_ok h
  unfold PageStore.writePage at hp
  split at hp
  · cases hp
  split at hp
  · cases hp
  rw [hi] at hp
  obtain ⟨-,rfl⟩ := Prod.mk.inj hp
  exact ⟨not_not.mp ‹_›,rfl⟩

lemma of_writePages {ws : List (ℕ × Bytes)} (hi : s.pages.txn = none) (h : writePages ws s = (.ok (),s')) :
    s'.pages = written s.pages ws ∧ SameHandle s s' := by
  induction ws generalizing s with
  | nil =>
    obtain ⟨-,rfl⟩ := Prog.of_pure_ok h
    refine ⟨?_,.refl s⟩
    rw [written,patch,List.foldl_nil,← hi]
  | cons w ws ih =>
    obtain ⟨id,b⟩ := w
    obtain ⟨_,s₁,hw,h⟩ := Prog.of_bind_ok h
    obtain ⟨-,rfl⟩ := of_writePage hi (of_wrap_ok hw)
    obtain ⟨hp,hsame⟩ := ih rfl h
    have hfirst : SameHandle s (s.after .write 1 (written s.pages [(id,b)])) := ⟨rfl,rfl,rfl,rfl⟩
    exact ⟨hp,hfirst.trans hsame⟩

lemma of_swapRoot {root : ℕ} (hi : s.pages.txn = none) (h : swapRoot root s = (.ok (),s')) :
    s'.pages = written s.pages [(metaPageID,encodeMetaPage root)] ∧ s'.rootPageID = root ∧
      s'.faults = s.faults ∧ s'.isOpen = s.isOpen ∧ s'.closed = s.closed := by
  obtain ⟨_,s₁,hb,h⟩ := Prog.of_bind_ok h
  obtain ⟨_,s₂,hw,h⟩ := Prog.of_bind_ok h
  obtain ⟨_,s₃,hc,h⟩ := Prog.of_bind_ok h
  obtain ⟨p₁,hbegin,rfl⟩ := of_call_ok (of_wrap_ok hb)
  obtain ⟨p₂,hwrite,rfl⟩ := of_call_ok (of_wrap_ok (of_orRollback_ok hw))
  obtain ⟨p₃,hcommit,rfl⟩ := of_call_ok (of_wrap_ok hc)
  obtain ⟨-,rfl⟩ := Prod.mk.inj h
  rw [PageStore.beginTx,if_neg (by simp [hi])] at hbegin
  obtain ⟨-,rfl⟩ := Prod.mk.inj hbegin
  unfold PageStore.writePage at hwrite
  split at hwrite
  · cases hwrite
  split at hwrite
  · cases hwrite
  obtain ⟨-,rfl⟩ := Prod.mk.inj hwrite
  obtain ⟨-,rfl⟩ := Prod.mk.inj hcommit
  have hview : PageStore.view ⟨s.pages.pageCount,s.pages.freeList,s.pages.body,
      some (Function.update (fun _ => none) metaPageID (some (encodeMetaPage root)))⟩ =
      patch s.pages.body [(metaPageID,encodeMetaPage root)] := by
    funext id
    by_cases hid : id = metaPageID
    · subst hid
      simp [PageStore.view,patch]
    · simp [PageStore.view,patch,Function.update_of_ne hid]
  exact ⟨congrArg (fun b => PageStore.mk s.pages.pageCount s.pages.freeList b none) hview,rfl,rfl,rfl,rfl⟩

end Inversion

def listed (es : List (Key × Slot)) : List Entry := es.map fun e => (e.1,e.2.value)

lemma scanned_all (es : List (Key × Slot)) : scanned [] [] es = listed es := by
  rw [scanned,List.filter_eq_self.mpr]
  · rfl
  · intro e _
    simp [InRange]

lemma Slot.value_fits (e : Slot) :
    e.value.length ≤ maxValSize ∨ e.value.length+8 ≤ maxValSizeEnterprise := by
  cases e with
  | inline v h => exact .inl h
  | overflow v ids _ h _ => exact .inr h

lemma Rooted.loadable {p : PageStore} {H : ℕ} {t : Tree Key Slot H} (ht : Rooted p t) :
    Loadable (listed (entries H t)) := by
  refine ⟨?_,fun e he => ?_⟩
  · rw [listed,List.map_map]
    exact ht.ordered.entries
  · obtain ⟨x,hx,rfl⟩ := List.mem_map.mp he
    exact ⟨ht.key_size _ (key_mem_items hx),x.2.value_fits⟩

section Loaded
variable {es : List Entry} {ids : List ℕ} {root : ℕ} {ws : List (ℕ × Bytes)}
  {x : (H : ℕ) × Tree Key Slot H}

lemma Loaded.made (h : Loaded es ids root ws x) : ∀ n ∈ inners x.1 x.2, Made ws n := by
  obtain ⟨as,hsub,-,hb⟩ := h.nodes
  refine (hb.mono fun n hn => ?_).inners (by decide) fun t ht n hn => ?_
  · obtain ⟨b,hm,hd⟩ := hn
    exact ⟨b,hsub hm,hd⟩
  · obtain ⟨l,-,rfl⟩ := List.mem_map.mp ht
    simp at hn

lemma Loaded.mem_addresses (h : Loaded es ids root ws x) {id : ℕ} (hid : id ∈ BPlus.ids x.1 x.2) :
    id ∈ ws.map Prod.fst := by
  cases List.mem_append.mp hid with
  | inl hl =>
    obtain ⟨as,-,heq,-⟩ := h.nodes
    rw [heq]
    exact List.mem_append_left _ hl
  | inr hi =>
    obtain ⟨n,hn,rfl⟩ := List.mem_map.mp hi
    obtain ⟨b,hm,-⟩ := h.made n hn
    exact List.mem_map_of_mem (f := Prod.fst) hm

lemma Loaded.root_mem (h : Loaded es ids root ws x) : root ∈ ws.map Prod.fst := by
  rw [h.root_eq]
  exact h.mem_addresses (rootId_mem_ids x.1 x.2)

end Loaded

/-- The new pages are in place: `ws` written, the other ones of `ids` blank. -/
structure Installed (s : Store) (ids : List ℕ) (ws : List (ℕ × Bytes)) : Prop where
  healthy : s.Healthy
  opened : s.Opened
  sound : Sound s.pages
  meta_page : decodeMetaPage (s.pages.body metaPageID) = .ok s.rootPageID
  live : ∀ id ∈ ids, s.pages.Live id ∧ id≠metaPageID
  body : ∀ w ∈ ws, s.pages.body w.1 = w.2
  blank : ∀ id ∈ ids, id ∉ ws.map Prod.fst → s.pages.body id = zeroBody

lemma Rooted.written {p : PageStore} {H : ℕ} {t : Tree Key Slot H} (ht : Rooted p t)
    {ws : List (ℕ × Bytes)} (hws : ∀ id ∈ pagesOf t, id ∉ ws.map Prod.fst) : Rooted (written p ws) t where
  holds := ht.holds.frame fun id hid => patch_not_mem (hws id hid)
  ordered := ht.ordered
  key_size := ht.key_size
  leaf_size := ht.leaf_size
  inner_size := ht.inner_size
  nodup := ht.nodup
  live id hid := ht.live id hid

lemma freeTree_run {s : Store} {H : ℕ} {t : Tree Key Slot H} (hs : Sound s.pages) (ht : Rooted s.pages t) :
    ∃ s', freeTreePages (rootId H t) s = (.ok (),s') ∧ SameHandle s s' ∧ Sound s'.pages ∧
      (∀ id, s.pages.Live id → id ∉ pagesOf t →
        s'.pages.Live id ∧ s'.pages.body id = s.pages.body id) ∧
      ∀ id, s'.pages.Live id → s.pages.Live id ∧ (s.Healthy → id ∉ pagesOf t) := by
  obtain ⟨s',hrun,hf,hclear⟩ := freeTreePages_run hs.idle (ht.owned hs) (rootId_mem_ids H t)
  refine ⟨s',hrun,hf.same,hf.sound hs fun id hid => ?_,fun id hl hid => ?_,
    fun id hl => ⟨(hf.live id hl).1,fun hh hid => ?_⟩⟩
  · have hpage : ∀ id ∈ pagesOf t, metaPageID < id := fun id hm =>
      lt_of_le_of_ne (ht.live id hm).1.1 (ht.live id hm).2.symm
    obtain hn | hc | rfl | h0 := hid
    · exact .inr (hpage id (List.mem_append_left _ hn))
    · exact .inr (hpage id (List.mem_append_right _ hc))
    · exact .inr (by decide)
    · exact .inl h0
  · have hout : ¬(id ∈ ids H t ∨ OnChain t id) := by
      rintro (hn | hc | hend)
      · exact hid (List.mem_append_left _ hn)
      · exact hid (List.mem_append_right _ hc)
      · exact hs.not_end hl hend
    exact ⟨hf.keep hout hl,hf.body id hout⟩
  · obtain ⟨vs,hroot,hc⟩ := hclear hh (ht.typed hs)
    exact ht.swept hs hroot hc id hid hl

section Run
variable {s s' : Store} {H : ℕ} {t : Tree Key Slot H}

lemma of_compact (hg : Good s (some ⟨H,t⟩)) (h : compact s = (.ok (),s')) :
    ∃ m, if entries H t = [] then
        (do swapRoot rootSentinel; freeTreePages (rootId H t)) (s.tick .read m) = (.ok (),s')
      else ∃ r s₁ s₂ s₃, bulkLoad (listed (entries H t)) (s.tick .read m) = (.ok r,s₁) ∧
        writePages r.2 s₁ = (.ok (),s₂) ∧ s₃.pages = s₂.pages ∧ SameHandle s₂ s₃ ∧
        (do swapRoot r.1; freeTreePages (rootId H t)) s₃ = (.ok (),s') := by
  have ht := hg.shows.tree _ rfl
  have hroot : s.rootPageID = rootId H t := hg.shows.root_eq
  obtain ⟨m,hscan⟩ := scanFrom_ok [] [] (fun _ => "kv: scanAll read") hg.healthy hg.shows.sound ht
  have hscan' : wrap "kv: compact scan" (do scanAll (← fuel) s.rootPageID) s =
      (.ok (listed (entries H t)),s.tick .read m) := by
    rw [← scanned_all,hroot]
    exact wrap_ok ((Prog.bind_ok (fuel_run s)).trans hscan)
  rw [compact,Prog.bind_ok (checkOpen_ok hg.opened),Prog.bind_ok (Prog.get_run s),
    if_neg (hroot ▸ ht.root_ne hg.shows.sound),Prog.bind_ok hscan'] at h
  refine ⟨m,?_⟩
  rw [hroot] at h
  by_cases he : entries H t = []
  · rw [if_pos he]
    rwa [if_pos (by simp [he,listed])] at h
  · rw [if_neg he]
    rw [if_neg (by simpa [listed] using he)] at h
    obtain ⟨r,s₁,hb,h⟩ := Prog.of_bind_ok h
    obtain ⟨_,s₂,hw,h⟩ := Prog.of_bind_ok h
    obtain ⟨_,s₃,hr,h⟩ := Prog.of_bind_ok h
    have hread : s₃.pages = s₂.pages ∧ SameHandle s₂ s₃ := by
      unfold Prog.handle at hr
      split at hr
      · rename_i hx
        obtain ⟨-,-,rfl⟩ := of_readPage (hx.trans hr)
        exact ⟨rfl,⟨rfl,rfl,rfl,rfl⟩⟩
      · rename_i e _ _
        cases e <;> cases hr
    exact ⟨r,s₁,s₂,s₃,hb,hw,hread.1,hread.2,h⟩

/-- Swapping the root and freeing the old tree: every live page outside the old tree but the meta
page stays. -/
lemma of_swap_free {root : ℕ} (hs : Sound s.pages) (ht : Rooted s.pages t) (hroot : root < 256^8)
    (h : (do swapRoot root; freeTreePages (rootId H t)) s = (.ok (),s')) :
    s'.rootPageID = root ∧ s'.faults = s.faults ∧ s'.isOpen = s.isOpen ∧ s'.closed = s.closed ∧
      Sound s'.pages ∧ decodeMetaPage (s'.pages.body metaPageID) = .ok root ∧
      (∀ id, s.pages.Live id → id ∉ pagesOf t → id≠metaPageID →
        s'.pages.Live id ∧ s'.pages.body id = s.pages.body id) ∧
      ∀ id, s'.pages.Live id → s.pages.Live id ∧ (s.Healthy → id ∉ pagesOf t) := by
  obtain ⟨_,s₁,hw,h⟩ := Prog.of_bind_ok h
  obtain ⟨hp,hr,hf,ho,hc⟩ := of_swapRoot hs.idle hw
  have hmeta : ∀ id ∈ pagesOf t, id ∉ [(metaPageID,encodeMetaPage root)].map Prod.fst := fun id hid => by
    simpa using (ht.live id hid).2
  have hs₁ : Sound s₁.pages := hp ▸ hs.written _
  obtain ⟨s₂,hrun,hsame,hs₂,hkeep,hgone⟩ := freeTree_run hs₁ (hp ▸ ht.written hmeta)
  obtain ⟨-,rfl⟩ := Prod.mk.inj (hrun.symm.trans h)
  have hm := hkeep metaPageID hs₁.live_meta fun hid => (ht.live _ hid).2 rfl
  refine ⟨hsame.root.trans hr,hsame.faults.trans hf,hsame.opened.trans ho,hsame.closed.trans hc,hs₂,?_,
    fun id hl hid hne => ?_,fun id hl => ?_⟩
  · rw [hm.2,hp]
    change decodeMetaPage (patch s.pages.body [(metaPageID,encodeMetaPage root)] metaPageID) = _
    rw [patch_mem (by simp) (List.mem_singleton_self _)]
    exact decodeMetaPage_encode hroot
  · have hl₁ : s₁.pages.Live id := by rwa [hp,written_live]
    refine ⟨(hkeep id hl₁ hid).1,(hkeep id hl₁ hid).2.trans ?_⟩
    rw [hp]
    exact patch_not_mem (by simpa using hne)
  · obtain ⟨hl₁,hout⟩ := hgone id hl
    rw [hp,written_live] at hl₁
    refine ⟨hl₁,fun hh => hout fun c n => ?_⟩
    rw [hf]
    exact hh c n

lemma Good.compact_none (hg : Good s none) : compact s = (.ok (),s) := by
  have hroot : s.rootPageID = rootSentinel := hg.shows.root_eq
  rw [compact,Prog.bind_ok (checkOpen_ok hg.opened),Prog.bind_ok (Prog.get_run s),if_pos hroot]
  rfl

lemma compact_empty (hg : Good s (some ⟨H,t⟩)) (he : entries H t = []) (h : compact s = (.ok (),s')) :
    Good s' none ∧ Accounts s.pages (some ⟨H,t⟩) [] [] s'.pages none := by
  obtain ⟨m,hc⟩ := of_compact hg h
  rw [if_pos he] at hc
  obtain ⟨hr,hf,ho,hcl,hs,hmeta,-,hgone⟩ :=
    of_swap_free (s := s.tick .read m) hg.shows.sound (hg.shows.tree _ rfl)
    (by decide) hc
  refine ⟨⟨fun c n => ?_,⟨ho.trans hg.opened.1,hcl.trans hg.opened.2⟩,hs,?_,hr,fun x hx => nomatch hx⟩,
    fun id hl => ?_⟩
  · rw [hf]
    exact hg.healthy c n
  · rw [hr]
    exact hmeta
  · obtain ⟨hold,hout⟩ := hgone id hl
    exact .inr ⟨hold,List.not_mem_nil,fun hid => absurd hid (hout (hg.healthy.tick _ _))⟩

lemma compact_loaded (hg : Good s (some ⟨H,t⟩)) (he : entries H t≠[]) (h : compact s = (.ok (),s')) :
    ∃ ids ws x, Loaded (listed (entries H t)) ids s'.rootPageID ws x ∧ Installed s' ids ws ∧ ids.Nodup ∧
      ∀ id, s'.pages.Live id → id ∈ ids ∨ s.pages.Live id ∧ id ∉ pagesOf t := by
  have ht := hg.shows.tree _ rfl
  obtain ⟨m,hc⟩ := of_compact hg h
  rw [if_neg he] at hc
  obtain ⟨r,s₁,s₂,s₃,hb,hw,hp₃,hsame₃,hc⟩ := hc
  obtain ⟨ids,x,htook,hld⟩ := bulkLoad_loaded (s := s.tick .read m) ht.loadable
    (by simpa [listed] using he) hg.shows.sound hb
  have hgrown := htook.grown
  obtain ⟨hp₂,hsame₂⟩ := of_writePages hgrown.sound.idle hw
  have hsame := (htook.same.trans hsame₂).trans hsame₃
  have hp : s₃.pages = written s₁.pages r.2 := hp₃.trans hp₂
  have hfresh : ∀ id ∈ ids, s₃.pages.Live id ∧ id ∉ pagesOf t ∧ id≠metaPageID := fun id hid => by
    obtain ⟨h1,h2,h3⟩ := hgrown.fresh id hid
    exact ⟨by rwa [hp,written_live],fun hm => h1 (ht.live id hm).1,h3.ne'⟩
  have hws : ∀ id ∈ r.2.map Prod.fst, id ∈ ids := fun id hid => hld.addresses.subset hid
  have ht₃ : Rooted s₃.pages t := by
    rw [hp]
    exact (ht.extend hgrown).written fun id hid hm => (hfresh id (hws id hm)).2.1 hid
  have hs₃ : Sound s₃.pages := hp ▸ hgrown.sound.written _
  have hroot := hfresh _ (hws _ hld.root_mem)
  obtain ⟨hr,hf,ho,hcl,hs,hmeta,hkeep,hgone⟩ := of_swap_free hs₃ ht₃ (hs₃.live_lt_word hroot.1) hc
  have hbody : ∀ id ∈ ids, s'.pages.body id = patch s₁.pages.body r.2 id := fun id hid => by
    obtain ⟨h1,h2,h3⟩ := hfresh id hid
    rw [(hkeep id h1 h2 h3).2,hp]
    rfl
  refine ⟨ids,r.2,x,hr ▸ hld,⟨fun c n => ?_,?_,hs,hr ▸ hmeta,fun id hid => ?_,fun w hw =>
    ?_,fun id hid hn => ?_⟩,
    hgrown.nodup,fun id hl => ?_⟩
  · rw [hf,hsame.faults]
    exact hg.healthy c n
  · exact ⟨(ho.trans hsame.opened).trans hg.opened.1,(hcl.trans hsame.closed).trans hg.opened.2⟩
  · obtain ⟨h1,h2,h3⟩ := hfresh id hid
    exact ⟨(hkeep id h1 h2 h3).1,h3⟩
  · rw [hbody w.1 (hws _ (List.mem_map_of_mem hw))]
    exact patch_mem (hgrown.nodup.sublist hld.addresses) hw
  · rw [hbody id hid,patch_not_mem hn]
    exact hgrown.zero id hid
  · obtain ⟨hl₃,hout⟩ := hgone id hl
    rw [hp,written_live] at hl₃
    refine (hgrown.cover id hl₃).symm.imp_right fun hold => ⟨hold,hout fun c n => ?_⟩
    rw [hsame.faults]
    exact hg.healthy c n

end Run

section Search
variable {s : Store} {es : List Entry} {ids : List ℕ} {ws : List (ℕ × Bytes)}
  {x : (H : ℕ) × Tree Key Slot H}
  (hld : Loaded es ids s.rootPageID ws x) (hin : Installed s ids ws) (hnd : ids.Nodup)
include hld hin

lemma Installed.live_tree {id : ℕ} (hid : id ∈ BPlus.ids x.1 x.2) : s.pages.Live id ∧ id≠metaPageID :=
  hin.live id (hld.addresses.subset (hld.mem_addresses hid))

lemma Installed.leafRun : LeafRun s.pages.body rootSentinel (leaves x.1 x.2) := hld.run _ hin.body

lemma Installed.inner {n : BPlus.Inner Key ℕ} (hn : n ∈ inners x.1 x.2) :
    decodeInternalNode (s.pages.body n.id) = .ok (n.kids,n.keys) := by
  obtain ⟨b,hm,hd⟩ := hld.made n hn
  rw [hin.body _ hm]
  exact hd

lemma Installed.readable : Readable s.pages x.2 where
  inner n hn := by
    rw [view_idle hin.sound.idle]
    exact ⟨(hin.live_tree hld (List.mem_append_right _ (List.mem_map_of_mem hn))).1,hin.inner hld hn⟩
  leaf l hl := by
    rw [view_idle hin.sound.idle]
    obtain ⟨nx,hd⟩ := (hin.leafRun hld).mem l hl
    exact ⟨(hin.live_tree hld (List.mem_append_left _ (List.mem_map_of_mem hl))).1,
      (decodeLeafNodeRefs_type hd).2⟩

include hnd in
lemma Installed.height_lt : x.1 < s.pages.pageCount+1 := by
  obtain ⟨as,-,heq,hb⟩ := hld.nodes
  have h1 := hb.height_lt (by decide)
  rw [List.length_map] at h1
  have hleaf : ((leaves x.1 x.2).map Leaf.id).Nodup := by
    have h := hnd.sublist hld.addresses
    rw [heq] at h
    exact (List.nodup_append.mp h).1
  have hsub : (leaves x.1 x.2).map Leaf.id ⊆ List.range s.pages.pageCount := fun id hid =>
    List.mem_range.mpr (hin.live_tree hld (List.mem_append_left _ hid)).1.2.1
  have h2 := (hleaf.subperm hsub).length_le
  rw [List.length_map,List.length_range] at h2
  omega

include hnd in
lemma Installed.get (k : Key) : ∃ s₁, s₁.pages = s.pages ∧
    (get k s).1 = match Assoc.lookup k (descend (Route.upper k) x.1 x.2 .root).2.entries with
      | some e => (slotValue e.ref s₁).1
      | none => .error (.err .keyNotFound) := by
  have hroot := hld.root_eq
  have hlive := (hin.live_tree hld (rootId_mem_ids x.1 x.2)).1
  have hne : rootId x.1 x.2≠rootSentinel := fun h => hin.sound.not_end hlive (.inl h)
  obtain ⟨nx,hd⟩ := (hin.leafRun hld).mem _ (descend_mem_leaves (Route.upper k) x.2 .root)
  refine ⟨s.tick .read (x.1+1),rfl,?_⟩
  rw [KV.get,Prog.bind_ok (checkOpen_ok hin.opened),Prog.bind_ok (Prog.get_run s),hroot,if_neg hne,
    Prog.bind_ok (fuel_run s),search_at hin.healthy hin.sound.idle (hin.readable hld)
      (hin.height_lt hld hnd) rfl,
    searchLeaf_run k _ hd]
  cases Assoc.lookup k (descend (Route.upper k) x.1 x.2 .root).2.entries <;> rfl

end Search

lemma compactSeps_get {es : List Entry} {c j : ℕ} (hj : j+1 < c) (hlt : (j+1)*maxLeafKeys < es.length) :
    (compactSeps es 0 c)[j]? = some es[(j+1)*maxLeafKeys].1 := by
  have hr : (List.range (c-1))[j]? = some j := List.getElem?_range (by omega)
  rw [compactSeps,List.getElem?_map,hr,Option.map_some]
  simp only [Nat.zero_mul,Nat.zero_add,if_neg (not_le.mpr hlt),ge_iff_le,List.getD_eq_getElem _ _ hlt]

section Lost
variable {s : Store} {es : List Entry} {ids : List ℕ} {ws : List (ℕ × Bytes)}
  {x : (H : ℕ) × Tree Key Slot H}
  (hld : Loaded es ids s.rootPageID ws x) (hin : Installed s ids ws) (hnd : ids.Nodup)
  (hasc : (es.map Prod.fst).Pairwise (· < ·))
include hld

lemma Loaded.repacked {l : Leaf Key Slot} (hl : l ∈ leaves x.1 x.2) {e : Key × Slot} (he : e ∈ l.entries) :
    ∃ a ∈ es, Repacked ids a e := by
  obtain ⟨i,-,hi⟩ := forall₂_mem hld.chunks hl
  obtain ⟨a,ha,hr⟩ := forall₂_mem hi he
  exact ⟨a,(chunk_sublist ..).subset ha,hr⟩

include hin

lemma Installed.not_overflow {id : ℕ} (hid : id ∈ ids) (r : ℕ × Bytes) :
    decodeOverflowPage (s.pages.body id)≠.ok r := by
  intro h
  have hty : (s.pages.body id).headD 0 = nodeTypeOverflow := by
    unfold decodeOverflowPage at h
    split at h
    · cases h
    split at h
    · cases h
    · exact not_not.mp ‹_›
  by_cases hm : id ∈ ws.map Prod.fst
  · obtain ⟨w,hw,rfl⟩ := List.mem_map.mp hm
    rw [hin.body w hw] at hty
    obtain ⟨d,hd⟩ | ⟨d,hd⟩ := hld.pages w hw
    · rw [(decodeLeafNodeRefs_type hd).2] at hty
      exact absurd hty (by decide)
    · rw [(decodeInternalNode_type hd).2] at hty
      exact absurd hty (by decide)
  · rw [hin.blank id hid hm] at hty
    exact absurd hty (by decide)

lemma Installed.slot_lost {e : Slot} (hsub : e.pages ⊆ ids) (hne : e.pages≠[]) {s₁ : Store}
    (hs₁ : s₁.pages = s.pages) (v : Bytes) : (slotValue e.ref s₁).1≠.ok v := by
  intro h
  cases e with
  | inline w hw => exact hne rfl
  | overflow w as hlong hsize hcount =>
    obtain ⟨a,as,rfl⟩ := List.exists_cons_of_ne_nil hne
    have ha : a ∈ ids := hsub (List.mem_cons_self ..)
    have hlive := (hin.live a ha).1
    have hend : ¬(a = rootSentinel ∨ a = 0) := hin.sound.not_end hlive
    have hrun := Prog.run_ok h
    rw [Slot.ref_overflow,slotValue,if_pos rfl,readOverflowValue] at hrun
    obtain ⟨buf,s₂,hf,-⟩ := Prog.of_bind_ok hrun
    have hmod : a%256^8 = a := Nat.mod_eq_of_lt (hin.sound.live_lt_word hlive)
    have hfuel : maxOverflowChainLen = maxOverflowChainLen-1+1 := rfl
    rw [List.headD_cons,hmod,hfuel,followChain,if_neg hend] at hf
    obtain ⟨body,s₃,hread,hf⟩ := Prog.of_bind_ok hf
    obtain ⟨r,s₄,hdec,-⟩ := Prog.of_bind_ok hf
    obtain ⟨hd,-⟩ := of_codec_ok hdec
    obtain ⟨p,hp,-⟩ := of_call_ok (of_wrap_ok hread)
    rw [hs₁,PageStore.readPage,if_pos hlive,view_idle hin.sound.idle] at hp
    obtain ⟨hb,-⟩ := Prod.mk.inj hp
    cases hb
    exact hin.not_overflow hld ha r hd

include hnd hasc

theorem Installed.get_long {a : Entry} (ha : a ∈ es) (hlong : maxValSize < a.2.length) :
    (KV.get a.1 s).1≠.ok a.2 := by
  obtain ⟨s₁,hs₁,hget⟩ := hin.get hld hnd a.1
  rw [hget]
  cases hx : Assoc.lookup a.1 (descend (Route.upper a.1) x.1 x.2 .root).2.entries with
  | none => exact fun h => nomatch h
  | some e =>
    obtain ⟨b,hb,hr⟩ :=
      hld.repacked (descend_mem_leaves (Route.upper a.1) x.2 .root) (Assoc.mem_of_lookup hx)
    obtain rfl : b = a := by
      have hinj := List.inj_on_of_nodup_map (hasc.imp ne_of_lt)
      exact hinj hb ha hr.1.symm
    obtain ⟨hsub,hval⟩ := (if_neg (not_le.mpr hlong)).mp hr.2
    by_cases hp : e.pages = []
    · cases e with
      | inline w hw =>
        change (slotValue (Slot.inline w hw).ref s₁).1≠_
        rw [Slot.ref_inline]
        exact fun h => hval rfl (Except.ok.inj h)
      | overflow w as hl hsz hc =>
        obtain rfl : as = [] := hp
        exact absurd hc (numOverflow_pos hl).ne
    · exact hin.slot_lost hld hsub hp hs₁ b.2

omit hin hnd hasc in
lemma Loaded.leaves_length : (leaves x.1 x.2).length = chunkCount maxLeafKeys es.length :=
  (forall₂_range hld.chunks).1

omit hin hnd in
lemma Loaded.key_late {m : ℕ} {l : Leaf Key Slot} (hl : l ∈ (leaves x.1 x.2).drop m) {e : Key × Slot}
    (he : e ∈ l.entries) {j : ℕ} (hj : j < es.length) (hjm : j < m*maxLeafKeys) : es[j].1 < e.1 := by
  obtain ⟨i,hi,hget⟩ := List.getElem_of_mem hl
  rw [List.getElem_drop] at hget
  rw [List.length_drop] at hi
  have hr := (forall₂_range hld.chunks).2 (m+i) l (List.getElem?_eq_some_iff.mpr ⟨by omega,hget⟩)
  obtain ⟨a,ha,hk,-⟩ := forall₂_mem hr he
  have hdrop : a ∈ es.drop (j+1) := by
    have hle : j+1 ≤ (m+i)*maxLeafKeys := by
      rw [Nat.add_mul]
      omega
    exact List.drop_subset_drop_left es hle (List.mem_of_mem_take ha)
  rw [hk]
  rw [List.pairwise_map] at hasc
  have hsplit : es = es.take j++es[j]::es.drop (j+1) := by simp
  rw [hsplit,List.pairwise_append] at hasc
  exact (List.pairwise_cons.mp hasc.2.1).1 a hdrop

theorem Installed.get_wide (hwide : maxLeafKeys*(maxInternalKeys+1) < es.length) :
    ∃ a ∈ es, (KV.get a.1 s).1 = .error (.err .keyNotFound) := by
  have h7 : maxLeafKeys < es.length := lt_trans (by decide) hwide
  refine ⟨es[maxLeafKeys],List.getElem_mem h7,?_⟩
  obtain ⟨s₁,-,hget⟩ := hin.get hld hnd es[maxLeafKeys].1
  obtain ⟨as,-,-,hb⟩ := hld.nodes
  have hcount : maxInternalKeys+1 < ((leaves x.1 x.2).map Tree.leaf).length := by
    have hle := le_chunkCount_mul (w := maxLeafKeys) (by decide) es.length
    rw [List.length_map,hld.leaves_length]
    simp only [maxLeafKeys,maxInternalKeys] at hwide hle ⊢
    omega
  obtain ⟨h',n,rfl,htwo,hkeys,hfirst⟩ := hb.wide (by decide) hcount
  obtain ⟨u,us,hkids⟩ : ∃ u us, n.kids = u::us := List.exists_cons_of_length_pos (by omega)
  have hpick : 0 < (Route.upper es[maxLeafKeys].1).pick n.keys := by
    have hhead : n.keys[0]? = some es[maxLeafKeys].1 := by
      rw [hkeys]
      exact compactSeps_get (j := 0) (by omega) (by simpa using h7)
    obtain ⟨ks,hks⟩ : ∃ ks, n.keys = es[maxLeafKeys].1::ks := by
      rw [← List.head?_eq_getElem?] at hhead
      exact List.head?_eq_some_iff.mp hhead
    rw [hks]
    change 0 < upperIdx _ (_::_)
    rw [upperIdx,if_neg (lt_irrefl _)]
    exact Nat.succ_pos _
  have hlate := descend_tail (Route.upper es[maxLeafKeys].1) n (.root : Ctx Key Slot (h'+1) (h'+1)) hpick
  rw [hget,Assoc.lookup_none]
  intro e he
  refine (hld.key_late hasc (m := maxInternalKeys+1) ?_ he h7 (by decide)).ne'
  change _ ∈ List.drop _ (n.kids.flatMap (leaves h'))
  rw [hkids] at hlate ⊢
  rw [List.flatMap_cons,List.drop_append,
    Nat.sub_eq_zero_of_le (hfirst u (by rw [hkids]; rfl)),List.drop_zero]
  exact List.mem_append_right _ hlate

end Lost

lemma Repacked.listed {ids : List ℕ} {es : List Entry} {xs : List (Key × Slot)}
    (h : List.Forall₂ (Repacked ids) es xs) (hs : ∀ e ∈ es, e.2.length ≤ maxValSize) :
    listed xs = es ∧ ∀ x ∈ xs, x.2.pages = [] := by
  induction h with
  | nil => simp [KV.listed]
  | @cons e x es xs he _ ih =>
    obtain ⟨h1,h2⟩ := ih fun a ha => hs a (List.mem_cons_of_mem _ ha)
    obtain ⟨hk,hv⟩ := he
    rw [if_pos (hs e (List.mem_cons_self ..))] at hv
    refine ⟨?_,List.forall_mem_cons.mpr ⟨hv.2,h2⟩⟩
    rw [KV.listed,List.map_cons,hk,hv.1]
    exact congrArg _ h1

section Kept
variable {s : Store} {es : List Entry} {ids : List ℕ} {ws : List (ℕ × Bytes)}
  {x : (H : ℕ) × Tree Key Slot H}
  (hld : Loaded es ids s.rootPageID ws x) (hshort : ∀ e ∈ es, e.2.length ≤ maxValSize)
include hld

section Short
include hshort

lemma Loaded.leaf_listed : List.Forall₂ (fun i l => listed l.entries = chunk maxLeafKeys i es ∧
      ∀ e ∈ l.entries, e.2.pages = [])
    (List.range (chunkCount maxLeafKeys es.length)) (leaves x.1 x.2) :=
  hld.chunks.imp fun _ _ h => Repacked.listed h fun e he => hshort e ((chunk_sublist ..).subset he)

lemma Loaded.listed_entries : listed (entries x.1 x.2) = es := by
  have h := forall₂_flatMap (g := fun l : Leaf Key Slot => listed l.entries)
    ((hld.leaf_listed hshort).imp fun _ _ h => h.1)
  rw [flatMap_chunk (by decide)] at h
  rw [← h,entries,listed,List.map_flatMap]
  rfl

lemma Loaded.no_overflow {e : Key × Slot} (he : e ∈ entries x.1 x.2) : e.2.pages = [] := by
  obtain ⟨l,hl,he⟩ := List.mem_flatMap.mp he
  obtain ⟨i,-,-,h⟩ := forall₂_mem (hld.leaf_listed hshort) hl
  exact h e he

end Short

lemma Loaded.keys_eq : (entries x.1 x.2).map Prod.fst = es.map Prod.fst := by
  have h := forall₂_flatMap (g := fun l : Leaf Key Slot => l.entries.map Prod.fst)
    (hld.chunks.imp fun _ _ h => Repacked.keys h)
  rw [← List.map_flatMap,← List.map_flatMap,flatMap_chunk (by decide)] at h
  exact h

lemma Loaded.leaf_head {i : ℕ} {l : Leaf Key Slot} (hl : (leaves x.1 x.2)[i]? = some l) :
    (l.entries.map Prod.fst).head? = (es[i*maxLeafKeys]?).map Prod.fst := by
  rw [Repacked.keys ((forall₂_range hld.chunks).2 i l hl),chunk,List.head?_map,List.head?_take,
    if_neg (by decide),List.head?_drop]

lemma Loaded.shape (hne : es≠[]) (hsmall : es.length ≤ maxLeafKeys*(maxInternalKeys+1)) :
    (∃ l, x = ⟨0,.leaf l⟩) ∨ ∃ (n : BPlus.Inner Key (Tree Key Slot 0)) (as : List (ℕ × Bytes)),
      x = ⟨1,.node n⟩ ∧ n.kids = (leaves x.1 x.2).map Tree.leaf ∧ n.keys = compactSeps es 0 n.kids.length ∧
      n.kids.length ≤ maxInternalKeys+1 ∧ n.id ∈ as.map Prod.fst ∧
      ws.map Prod.fst = (leaves x.1 x.2).map Leaf.id++as.map Prod.fst := by
  obtain ⟨as,-,heq,hb⟩ := hld.nodes
  have hlen := hld.leaves_length
  have hpos : 0 < chunkCount maxLeafKeys es.length :=
    chunkCount_pos (by decide) (List.length_pos_iff.mpr hne)
  have hle : chunkCount maxLeafKeys es.length ≤ maxInternalKeys+1 := by
    by_contra hlt
    have h := mul_lt_of_lt_chunkCount (w := maxLeafKeys) (by decide) (not_le.mp hlt)
    simp only [maxLeafKeys,maxInternalKeys] at h hsmall
    omega
  by_cases h1 : chunkCount maxLeafKeys es.length = 1
  · obtain ⟨l,hl⟩ := List.length_eq_one_iff.mp (hlen.trans h1)
    rw [hl] at hb
    exact .inl ⟨l,hb.of_single⟩
  · have htwo : 2 ≤ ((leaves x.1 x.2).map Tree.leaf).length := by
      rw [List.length_map]
      omega
    obtain ⟨n,hx,hk,hs,b,hm,-⟩ := hb.small (by decide) htwo (by rw [List.length_map]; omega)
    refine .inr ⟨n,as,hx,hk,by rw [hs,hk],by rw [hk,List.length_map]; omega,?_,heq⟩
    exact List.mem_map_of_mem (f := Prod.fst) hm

lemma Loaded.seps_eq (hsmall : (leaves x.1 x.2).length = chunkCount maxLeafKeys es.length) :
    (compactSeps es 0 (leaves x.1 x.2).length).map some =
      (leaves x.1 x.2).tail.map (fun l => (l.entries.map Prod.fst).head?) := by
  apply List.ext_getElem?
  intro j
  rw [List.getElem?_map,List.getElem?_map,List.getElem?_tail]
  by_cases hj : j+1 < (leaves x.1 x.2).length
  · have hlt : (j+1)*maxLeafKeys < es.length := mul_lt_of_lt_chunkCount (by decide) (hsmall ▸ hj)
    have hl : (leaves x.1 x.2)[j+1]? = some (leaves x.1 x.2)[j+1] := List.getElem?_eq_getElem hj
    rw [compactSeps_get hj hlt,hl,Option.map_some,Option.map_some,hld.leaf_head hl,
      List.getElem?_eq_getElem hlt]
    rfl
  · have hk : (compactSeps es 0 (leaves x.1 x.2).length)[j]? = none := by
      rw [List.getElem?_eq_none_iff,compactSeps,List.length_map,List.length_range]
      omega
    rw [hk,List.getElem?_eq_none (by omega)]
    rfl

section Small
variable (hne : es≠[]) (hsmall : es.length ≤ maxLeafKeys*(maxInternalKeys+1))
include hne hsmall

lemma Loaded.ordered (hasc : (es.map Prod.fst).Pairwise (· < ·)) :
    Ordered x.1 x.2 ∧ ∀ i ∈ items x.1 x.2, i.val ∈ es.map Prod.fst := by
  have hkeys := hld.keys_eq
  rw [← hkeys] at hasc ⊢
  obtain ⟨l,hx⟩ | ⟨n,as,hx,hkids,hseps,-⟩ := hld.shape hne hsmall
  · subst hx
    simp only [entries,leaves_leaf,List.flatMap_cons,List.flatMap_nil,List.append_nil] at hasc ⊢
    have hbefore : (l.entries.map fun e => Item.key e.1).Pairwise Item.Before := by
      rw [List.pairwise_map] at hasc ⊢
      exact hasc
    refine ⟨hbefore,fun i hi => ?_⟩
    obtain ⟨e,he,rfl⟩ := List.mem_map.mp hi
    exact List.mem_map_of_mem he
  · have hlen : n.kids.length = (leaves x.1 x.2).length := by rw [hkids,List.length_map]
    have h := ordered_over_leaves hkids (by rw [hseps,hlen]; exact hld.seps_eq hld.leaves_length) hasc
    rw [entries]
    generalize leaves x.1 x.2 = ls at *
    subst hx
    exact h

lemma Loaded.inner_size {n : BPlus.Inner Key ℕ} (hn : n ∈ inners x.1 x.2) :
    n.keys.length ≤ maxInternalKeys := by
  obtain ⟨l,rfl⟩ | ⟨m,as,hx,hkids,hseps,hle,-⟩ := hld.shape hne hsmall
  · simp at hn
  · have hfit := m.fit
    generalize leaves x.1 x.2 = ls at hkids
    subst hx
    rw [inners_over_leaves hkids,List.mem_singleton] at hn
    rw [hn]
    change m.keys.length ≤ _
    omega

lemma Loaded.ids_nodup (hnd : ids.Nodup) : (BPlus.ids x.1 x.2).Nodup := by
  have hws := hnd.sublist hld.addresses
  obtain ⟨l,rfl⟩ | ⟨n,as,hx,hkids,-,-,hid,heq⟩ := hld.shape hne hsmall
  · simp [BPlus.ids]
  · rw [heq] at hws
    obtain ⟨h1,-,h3⟩ := List.nodup_append.mp hws
    have hin : inners x.1 x.2 = [n.map (rootId 0)] := by
      generalize leaves x.1 x.2 = ls at hkids
      subst hx
      exact inners_over_leaves hkids
    rw [BPlus.ids,hin]
    refine List.nodup_append.mpr ⟨h1,List.nodup_singleton _,fun a ha b hb => ?_⟩
    rw [List.mem_singleton.mp hb]
    exact h3 a ha n.id hid

theorem Installed.rooted (hin : Installed s ids ws) (hnd : ids.Nodup) (hl : Loadable es)
    (hshort : ∀ e ∈ es, e.2.length ≤ maxValSize) : Rooted s.pages x.2 := by
  have hover : overflowPages (entries x.1 x.2) = [] :=
    List.flatMap_eq_nil_iff.mpr fun e he => hld.no_overflow hshort he
  obtain ⟨hord,hitems⟩ := hld.ordered hne hsmall hl.ascending
  refine ⟨⟨fun n hn => hin.inner hld hn,hin.leafRun hld,fun e he => ?_⟩,hord,fun i hi => ?_,fun l hm => ?_,
    fun n hn => hld.inner_size hne hsmall hn,?_,fun id hid => ?_⟩
  · have hp := hld.no_overflow hshort he
    cases hs : e.2 with
    | inline v hv => trivial
    | overflow v as hlong hsz hc =>
      rw [hs] at hp
      obtain rfl : as = [] := hp
      exact absurd hc (numOverflow_pos hlong).ne
  · obtain ⟨e,he,hv⟩ := List.mem_map.mp (hitems i hi)
    rw [← hv]
    exact (hl.fits e he).1
  · obtain ⟨i,-,hr⟩ := forall₂_mem hld.chunks hm
    rw [← hr.length_eq,chunk_length]
    exact min_le_left _ _
  · rw [pagesOf,hover,List.append_nil]
    exact hld.ids_nodup hne hsmall hnd
  · rw [pagesOf,hover,List.append_nil] at hid
    exact hin.live_tree hld hid

end Small
end Kept

lemma Loaded.good {s : Store} {es : List Entry} {ids : List ℕ} {ws : List (ℕ × Bytes)}
    {x : (H : ℕ) × Tree Key Slot H} (hld : Loaded es ids s.rootPageID ws x) (hin : Installed s ids ws)
    (ht : Rooted s.pages x.2) : Good s (some x) :=
  ⟨hin.healthy,hin.opened,hin.sound,hin.meta_page,hld.root_eq,fun _ hz => Option.mem_some.mp hz ▸ ht⟩

section Answers
variable {s s' : Store} {o : Root}

theorem Good.scan (hg : Good s o) (first last : Key) :
    (KV.scan first last s).1 = .ok (scanned first last o.contents) := by
  obtain ⟨m,hrun⟩ := scan_ok first last hg.healthy hg.opened hg.shows
  rw [hrun]

/-- Both stores answer every `Get` and every `Scan` alike. -/
def SameAnswers (s s' : Store) : Prop :=
  (∀ k, (KV.get k s').1 = (KV.get k s).1) ∧
    ∀ first last, (KV.scan first last s').1 = (KV.scan first last s).1

lemma Good.same_answers {o' : Root} (hg : Good s o) (hg' : Good s' o')
    (h : listed o'.contents = listed o.contents) :
    SameAnswers s s' := by
  have hfound : ∀ (k : Key) (es : List (Key × Slot)), found (Assoc.lookup k es) =
      match Assoc.lookup k (listed es) with
      | some v => .ok v
      | none => .error (.err .keyNotFound) := fun k es => by
    rw [listed,Assoc.lookup_map]
    cases Assoc.lookup k es <;> rfl
  have hscan : ∀ (first last : Key) (es : List (Key × Slot)), scanned first last es =
      (listed es).filter (fun e => InRange first last e.1) := fun first last es => by
    rw [listed,List.filter_map]
    rfl
  refine ⟨fun k => ?_,fun first last => ?_⟩
  · rw [hg.get,hg'.get,hfound,hfound,h]
  · rw [hg.scan,hg'.scan,hscan,hscan,h]

/-- What one bulk-loaded node can hold: every value in its slot, all leaves under one root. -/
def Store.Compactable (s : Store) : Prop :=
  ∃ es, (KV.scan [] [] s).1 = .ok es ∧ es.length ≤ maxLeafKeys*(maxInternalKeys+1) ∧
    ∀ e ∈ es, e.2.length ≤ maxValSize

lemma Good.compactable_iff (hg : Good s o) : s.Compactable ↔
    (listed o.contents).length ≤ maxLeafKeys*(maxInternalKeys+1) ∧
      ∀ e ∈ listed o.contents, e.2.length ≤ maxValSize := by
  rw [Store.Compactable,hg.scan,scanned_all]
  exact ⟨fun ⟨es,he,h⟩ => Except.ok.inj he ▸ h,fun h => ⟨_,rfl,h⟩⟩

lemma Good.compact_same_iff {y : (H : ℕ) × Tree Key Slot H} (hg : Good s (some y))
    (hne : entries y.1 y.2≠[]) (h : compact s = (.ok (),s')) : SameAnswers s s' ↔ s.Compactable := by
  have hl := (hg.shows.tree y rfl).loadable
  obtain ⟨ids,ws,x,hld,hin,hnd,-⟩ := compact_loaded hg hne h
  have hne' : listed (entries y.1 y.2)≠[] := by simpa [listed] using hne
  have hget : ∀ a ∈ listed (entries y.1 y.2), (KV.get a.1 s).1 = .ok a.2 := fun a ha => by
    obtain ⟨e,he,rfl⟩ := List.mem_map.mp ha
    have hx : Assoc.lookup e.1 (Root.contents (some y)) = some e.2 :=
      (Assoc.lookup_eq_some hg.shows.sorted_contents).mpr he
    rw [hg.get,hx]
    rfl
  rw [hg.compactable_iff]
  constructor
  · intro hsame
    refine ⟨not_lt.mp fun hwide => ?_,fun a ha => not_lt.mp fun hlong => ?_⟩
    · obtain ⟨a,ha,hlost⟩ := hin.get_wide hld hnd hl.ascending hwide
      rw [hsame.1,hget a ha] at hlost
      cases hlost
    · apply hin.get_long hld hnd hl.ascending ha hlong
      rw [hsame.1,hget a ha]
  · rintro ⟨hsmall,hshort⟩
    have hrooted := hin.rooted hld hne' hsmall hnd hl hshort
    exact hg.same_answers (hld.good hin hrooted) (hld.listed_entries hshort)

/-- `Compact` keeps all answers exactly when the contents are compactable. -/
theorem compact_same_answers_iff (hs : Reached s) (h : (compact s).1 = .ok ()) :
    SameAnswers s (compact s).2 ↔ s.Compactable := by
  obtain ⟨o,hg⟩ := hs.good
  have hrun := Prog.run_ok h
  have hempty : o.contents = [] → s.Compactable := fun he => by
    rw [hg.compactable_iff,he]
    exact ⟨Nat.zero_le _,fun e hm => nomatch hm⟩
  cases o with
  | none =>
    rw [hg.compact_none]
    exact ⟨fun _ => hempty rfl,fun _ => ⟨fun _ => rfl,fun _ _ => rfl⟩⟩
  | some y =>
    by_cases hne : entries y.1 y.2 = []
    · have hg' := (compact_empty hg hne hrun).1
      refine ⟨fun _ => hempty hne,fun _ => hg.same_answers hg' ?_⟩
      rw [show Root.contents (some y) = [] from hne]
      rfl
    · exact hg.compact_same_iff hne hrun

end Answers

lemma pairStore_compactable : pairStore.Compactable :=
  ⟨[([1],[2]),([3],[4])],by decide +kernel,by decide,by decide⟩

theorem compact_keeps_pair : pairStore.Compactable ∧ SameAnswers pairStore (compact pairStore).2 :=
  ⟨pairStore_compactable,
    (compact_same_answers_iff pairStore_reached (by decide +kernel)).mpr pairStore_compactable⟩

/-- A value longer than a slot is lost: its new overflow pages are never written. -/
theorem compact_loses_long_value :
    ∃ s, s = (set [97] longValue freshStore).2 ∧ Reached s ∧ (compact s).1 = .ok () ∧
      (get [97] s).1 = .ok longValue ∧ (get [97] (compact s).2).1≠.ok longValue := by
  refine ⟨_,rfl,.step reached_fresh roomy_fresh (.set [97] longValue),?_,?_,?_⟩
  all_goals decide +kernel

end Plomvix.KV
