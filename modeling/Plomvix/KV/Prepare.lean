import Plomvix.KV.Write

/-! What the transactions of `Set` and `Delete` leave behind: the located leaf rewritten, the
leaf split, or the first leaf of an empty store. -/
namespace Plomvix.KV
open Lib Pager BPlus

section Committed
variable {p : PageStore} {root H : ℕ} {t : Tree Key Slot H} {k : Key} {c : Ctx Key Slot 0 H}
  {l : Leaf Key Slot} {es : List (Key × Slot)} (pre : List (ℕ × Bytes))

lemma Sound.live_lt_word (hs : Sound p) {id : ℕ} (h : p.Live id) : id < 256^8 :=
  (hs.live_lt h).trans_le (by norm_num)

lemma nextOf_lt (hs : Sound p) (ht : Rooted p t) (hl : Located t k c l) : nextOf c < 256^8 := by
  refine headD_lt fun id hid => ?_
  obtain ⟨x,hx,rfl⟩ := List.mem_map.mp hid
  refine hs.live_lt_word (ht.live x.id (leaf_mem_pagesOf ?_)).1
  rw [leaves_located hl]
  simp [hx]

lemma leafBytes_length (h : LeafEntries es) {next : ℕ} (hn : next < 256^8) :
    (leafBytes es next).length = dataPageBodySize := (decodeLeafNodeRefs_type (h.encode hn).2).1

theorem shows_rewrite (hs : Shows p root (some ⟨H,t⟩)) (hl : Located t k c l) (hes : LeafEntries es)
    (hk : ∀ e ∈ es, e.1 = k ∨ e.1 ∈ l.entries.map Prod.fst) (hn : NewPages p t (overflowPages es))
    (hpre : pre.map Prod.fst = overflowPages es) (hlen : ∀ w ∈ pre, w.2.length = dataPageBodySize)
    (hst : ∀ f : ℕ → Bytes, (∀ w ∈ pre, f w.1 = w.2) → ∀ e ∈ es, e.2.Stored f) :
    Writable p (pre++[(l.id,leafBytes es (nextOf c))]) ∧
      Shows (written p (pre++[(l.id,leafBytes es (nextOf c))])) root
        (some ⟨H,c.plug (.leaf ⟨l.id,es⟩)⟩) := by
  have ht : Rooted p t := hs.tree _ rfl
  have hnext := nextOf_lt hs.sound ht hl
  have hlid := ht.live l.id (leaf_mem_pagesOf hl.mem_leaves)
  have hids : (pre++[(l.id,leafBytes es (nextOf c))]).map Prod.fst = overflowPages es++[l.id] := by
    simp [hpre]
  have hnd : ((pre++[(l.id,leafBytes es (nextOf c))]).map Prod.fst).Nodup := by
    rw [hids]
    refine List.nodup_append.mpr ⟨hn.nodup,by simp,fun x hx y hy he => ?_⟩
    rw [List.mem_singleton.mp hy] at he
    exact (hn.fresh x hx).1 (he ▸ leaf_mem_pagesOf hl.mem_leaves)
  refine ⟨fun w hw => ?_,hs.sound.written _,?_,?_,?_⟩
  · cases List.mem_append.mp hw with
    | inl h =>
      refine ⟨(hn.fresh w.1 ?_).2.1,hlen w h⟩
      rw [← hpre]
      exact List.mem_map_of_mem h
    | inr h =>
      rw [List.mem_singleton.mp h]
      exact ⟨hlid.1,leafBytes_length hes hnext⟩
  · change decodeMetaPage (patch p.body _ metaPageID) = _
    rw [patch_not_mem]
    · exact hs.meta_page
    · rw [hids,List.mem_append,List.mem_singleton]
      exact fun h => h.elim (fun h => (hn.fresh _ h).2.2 rfl) fun h => hlid.2 h.symm
  · have hr : root = rootId H t := hs.root_eq
    rw [hr,← hl.plug]
    exact Ctx.rootId_plug c _ _ rfl
  · intro x hx
    obtain rfl := Option.mem_some.mp hx
    refine ht.rewrite hl hes hk hn hids (by simp) (hst _ fun w hw => ?_) hnext
    exact patch_mem hnd (List.mem_append_left _ hw)

variable {m : Key} {w : Slot} {fs : List (Key × Slot)} {b : ℕ} {pool : List ℕ}

lemma innerBytes_length {n : BPlus.Inner Key ℕ} (h : InternalFits n.kids n.keys) :
    (innerBytes n).length = dataPageBodySize := (decodeInternalNode_type (innerBytes_encode h).2).1

lemma mem_parentWrites {path : List (Frame Key ℕ)} {l r : ℕ} {k : Key} {x : ℕ × Bytes} :
    x ∈ parentWrites path l r k pool ↔
      (∃ n ∈ Ctx.climb maxInternalKeys path l k r pool, x = (n.id,innerBytes n)) ∨
      ∃ a, Ctx.newRoot maxInternalKeys path pool = some a ∧ x = (metaPageID,encodeMetaPage a) := by
  simp only [parentWrites,List.mem_append,List.mem_map,Option.mem_toList,Option.map_eq_some_iff,
    eq_comm (a := x)]

theorem shows_split (hs : Shows p root (some ⟨H,t⟩)) (hl : Located t k c l) (hne : es≠[])
    (hsort : Assoc.Sorted (es++(m,w)::fs)) (hes : LeafEntries es) (hfs : LeafEntries ((m,w)::fs))
    (hk : ∀ e ∈ es++(m,w)::fs, e.1 = k ∨ e.1 ∈ l.entries.map Prod.fst)
    (hn : SplitPages p t (es++(m,w)::fs) b pool) (hp : c.depth < pool.length)
    (hpre : pre.map Prod.fst = overflowPages (es++(m,w)::fs))
    (hlen : ∀ w ∈ pre, w.2.length = dataPageBodySize)
    (hst : ∀ f : ℕ → Bytes, (∀ w ∈ pre, f w.1 = w.2) → ∀ e ∈ es++(m,w)::fs, e.2.Stored f) :
    (∀ n ∈ splitNodes c l m b pool, InternalFits n.kids n.keys) ∧
      Writable p (splitWrites pre c l es m w fs b pool) ∧
      Shows (written p (splitWrites pre c l es m w fs b pool))
        (newRootID root ((Ctx.newRoot maxInternalKeys c.path pool).getD 0))
        (some (splitTree c l es m w fs b pool)) := by
  have ht : Rooted p t := hs.tree _ rfl
  have hnext := nextOf_lt hs.sound ht hl
  have hord : Ordered _ (splitTree c l es m w fs b pool).2 :=
    hl.ordered_split ht.ordered maxInternalKeys l.id b pool hne hsort hk
  have hkey : ∀ e ∈ es++(m,w)::fs, e.1.length ≤ maxKeySize := by
    intro e he
    exact (List.mem_append.mp he).elim (hes.key_size e) (hfs.key_size e)
  have hfit := splitNodes_fit ht hl hn hp hord hkey hs.sound
  have hnd := splitWrites_nodup ht hl hn hp hpre
  have hlive := splitTree_live ht hl hn hp
  have hb := hn.fresh_nodes b (List.mem_cons_self ..)
  have hnew : ∀ a, Ctx.newRoot maxInternalKeys c.path pool = some a → p.Live a := fun a ha =>
    (hn.fresh_nodes a (List.mem_cons_of_mem _ (Ctx.newRoot_mem c.path pool (by simpa using hp) ha))).2.2.1
  refine ⟨hfit,fun x hx => ?_,hs.sound.written _,?_,?_,?_⟩
  · simp only [splitWrites,List.mem_append,List.mem_cons,mem_parentWrites] at hx
    obtain h | rfl | rfl | ⟨n,hm,rfl⟩ | ⟨a,-,rfl⟩ := hx
    · refine ⟨(hn.fresh x.1 ?_).2.1,hlen x h⟩
      rw [← hpre]
      exact List.mem_map_of_mem h
    · exact ⟨(ht.live l.id (leaf_mem_pagesOf hl.mem_leaves)).1,
        leafBytes_length hes (hs.sound.live_lt_word hb.2.2.1)⟩
    · exact ⟨hb.2.2.1,leafBytes_length hfs hnext⟩
    · exact ⟨(hlive n.id (inner_mem_pagesOf (splitNodes_subset hm))).1,innerBytes_length (hfit n hm)⟩
    · exact ⟨hs.sound.live_meta,encodeMetaPage_length a⟩
  · change decodeMetaPage (patch p.body _ metaPageID) = _
    cases hr : Ctx.newRoot maxInternalKeys c.path pool with
    | none =>
      rw [patch_not_mem]
      · exact hs.meta_page
      · intro hm
        simp only [splitWrites,parentWrites,List.map_append,List.map_cons,hpre,hr,List.map_map,
          List.mem_append,List.mem_cons] at hm
        obtain h | h | h | h | h := hm
        · exact (hn.fresh _ h).2.2 rfl
        · exact (ht.live l.id (leaf_mem_pagesOf hl.mem_leaves)).2 h.symm
        · exact hb.2.2.2 h.symm
        · obtain ⟨n,hm,he⟩ := List.mem_map.mp h
          exact (splitNodes_apart ht hl hn hp n hm).2.2.2 he
        · simp at h
    | some a =>
      have ha := hnew a hr
      have hm : (metaPageID,encodeMetaPage a) ∈ splitWrites pre c l es m w fs b pool := by
        simp only [splitWrites,List.mem_append,List.mem_cons,mem_parentWrites]
        exact .inr (.inr (.inr (.inr ⟨a,hr,rfl⟩)))
      have ha0 : a≠0 := fun h => hs.sound.not_end ha (.inr h)
      rw [patch_mem hnd hm,decodeMetaPage_encode (hs.sound.live_lt_word ha),newRootID,Option.getD_some,
        if_pos ha0]
  · have hr : root = rootId H (c.plug (.leaf ⟨l.id,es⟩)) := by
      have h : root = rootId H t := hs.root_eq
      rw [h,← hl.plug]
      exact Ctx.rootId_plug c _ _ rfl
    have hi : Root.id (some (splitTree c l es m w fs b pool)) =
        (Ctx.newRoot maxInternalKeys c.path pool).getD (rootId H (c.plug (.leaf ⟨l.id,es⟩))) :=
      Ctx.rootId_insertUp maxInternalKeys c _ _ _ _
    rw [hi,← hr]
    cases hx : Ctx.newRoot maxInternalKeys c.path pool with
    | none => rfl
    | some a => exact if_pos fun h => hs.sound.not_end (hnew a hx) (.inr h)
  · intro x hx
    obtain rfl := Option.mem_some.mp hx
    refine ht.split hl hn hp hord hkey hs.sound hpre hes hfs (hst _ fun x hx => ?_) hnext
    exact patch_mem hnd (List.mem_append_left _ hx)

end Committed

section Entries
variable {es : List (Key × Slot)} {k : Key}

def packedEntries (es : List (Key × Slot)) : List Entry := es.map fun e => (e.1,e.2.packed)

@[simp] lemma packedEntries_keys (es : List (Key × Slot)) :
    (packedEntries es).map Prod.fst = es.map Prod.fst := by
  simp [packedEntries]

@[simp] lemma packedEntries_vals (es : List (Key × Slot)) :
    (packedEntries es).map Prod.snd = es.map (fun e => e.2.packed) := by
  simp [packedEntries]

@[simp] lemma packedEntries_length (es : List (Key × Slot)) : (packedEntries es).length = es.length := by
  simp [packedEntries]

@[simp] lemma sorted_packedEntries : Assoc.Sorted (packedEntries es) ↔ Assoc.Sorted es :=
  Assoc.sorted_map _ _

lemma exists_key_iff {V : Type} {kvs : List (Key × V)} :
    (∃ e ∈ kvs, e.1 = k) ↔ k ∈ kvs.map Prod.fst := by
  simp only [List.mem_map]

lemma LeafEntries.put (h : LeafEntries es) (hk : k.length ≤ maxKeySize)
    (hfit : k ∈ es.map Prod.fst ∨ es.length < maxLeafKeys) (e : Slot) :
    LeafEntries (Assoc.put k e es) where
  count := by
    by_cases hm : k ∈ es.map Prod.fst
    · rw [Assoc.length_put_here h.sorted (exists_key_iff.mpr hm)]
      exact h.count
    · rw [Assoc.length_put_new fun x hx he => hm (exists_key_iff.mp ⟨x,hx,he⟩)]
      exact hfit.resolve_left hm
  sorted := Assoc.sorted_put k e h.sorted
  key_size x hx := (Assoc.mem_put hx).elim (fun he => he ▸ hk) fun hm => h.key_size x hm.1

lemma LeafEntries.erase (h : LeafEntries es) (k : Key) : LeafEntries (Assoc.erase k es) where
  count := (List.length_filter_le ..).trans h.count
  sorted := Assoc.sorted_erase k h.sorted
  key_size x hx := h.key_size x (Assoc.mem_erase.mp hx).1

lemma LeafEntries.sublist (h : LeafEntries es) {fs : List (Key × Slot)} (hf : fs.Sublist es) :
    LeafEntries fs where
  count := hf.length_le.trans h.count
  sorted := h.sorted.sublist (hf.map _)
  key_size x hx := h.key_size x (hf.subset hx)

lemma Rooted.leafEntries {p : PageStore} {H : ℕ} {t : Tree Key Slot H} {c : Ctx Key Slot 0 H}
    {l : Leaf Key Slot} (ht : Rooted p t) (hl : Located t k c l) : LeafEntries (flatten l.entries) where
  count := by
    rw [flatten_length]
    exact ht.leaf_size l hl.mem_leaves
  sorted := by
    have h := ht.ordered.sorted_entries
    rw [hl.entries_eq,Assoc.sorted_append,Assoc.sorted_append] at h
    exact (sorted_flatten _).mpr h.1.2.1
  key_size x hx := by
    obtain ⟨e,he,rfl⟩ := List.mem_map.mp hx
    exact ht.key_size (.key e.1) (key_mem_items (hl.mem_entries he))

lemma put_stored {f : ℕ → Bytes} {e : Slot} (he : ∀ id ∈ e.pages, id < 256^8)
    (hf : ∀ w ∈ e.writes, f w.1 = w.2) : ∀ x ∈ Assoc.put k e (flatten es), x.2.Stored f := by
  intro x hx
  cases Assoc.mem_put hx with
  | inl h =>
    rw [h]
    exact e.stored_of_writes he hf
  | inr h => exact flatten_stored x h.1

end Entries

@[simp] lemma newRootID_zero (old : ℕ) : newRootID old 0 = old := if_neg (not_not.mpr rfl)

section Leaf
variable {s : Store} {H : ℕ} {t : Tree Key Slot H} {k : Key} {c : Ctx Key Slot 0 H}
  {l : Leaf Key Slot} {e : Slot}

lemma NewPages.lt {p : PageStore} {ids : List ℕ} (hn : NewPages p t ids) (hs : Sound p) :
    ∀ id ∈ ids, id < 256^8 := fun id hid => hs.live_lt_word (hn.fresh id hid).2.1

lemma mem_put_key {es : List (Key × Slot)} {x : Key × Slot} (h : x ∈ Assoc.put k e (flatten es)) :
    x.1 = k ∨ x.1 ∈ es.map Prod.fst := by
  refine (Assoc.mem_put h).imp (fun he => by rw [he]) fun hm => ?_
  rw [← flatten_keys]
  exact List.mem_map_of_mem hm.1

lemma put_packed (k : Key) (e : Slot) (es : List (Key × Slot)) :
    Assoc.put k e.packed (packedEntries es) = packedEntries (Assoc.put k e es) :=
  Assoc.put_map Slot.packed k e es

lemma storeInLeaf_edit_run (hle : LeafEntries (flatten l.entries)) (hk : k.length ≤ maxKeySize)
    (hfit : k ∈ l.entries.map Prod.fst ∨ l.entries.length < maxLeafKeys) {next : ℕ} (hn : next < 256^8)
    (path : List PathEntry) (ids : List ℕ) (s : Store) :
    storeInLeaf path l.id ((flatten l.entries).map Prod.fst)
        ((flatten l.entries).map (fun e => e.2.packed)) next k ids e.packed s =
      (inTx commitTx (leafBody ids e.packed l.id (leafBytes (Assoc.put k e (flatten l.entries)) next)) >>=
        publish) s := by
  have hput := hle.put hk (by simpa using hfit) e
  have he :=
    storeInLeaf_edit (k := k) ids e.packed path l.id next (sorted_packedEntries.mpr hle.sorted) (by
    rw [exists_key_iff,packedEntries_keys,packedEntries_length]
    simpa using hfit)
  rw [put_packed] at he
  simp only [packedEntries_keys,packedEntries_vals] at he
  rw [he]
  exact Prog.bind_ok (codec_ok (hput.encode hn).1 s)

theorem prepared_edit (hs : Shows s.pages s.rootPageID (some ⟨H,t⟩)) (hl : Located t k c l)
    (hk : k.length ≤ maxKeySize) (hn : NewPages s.pages t e.pages)
    (hfit : k ∈ l.entries.map Prod.fst ∨ l.entries.length < maxLeafKeys) (path : List PathEntry) :
    Prepared (storeInLeaf path l.id ((flatten l.entries).map Prod.fst)
      ((flatten l.entries).map (fun e => e.2.packed)) (nextOf c) k e.pages e.packed) s s
      (e.pages.length+1) (some ⟨H,c.plug (.leaf ⟨l.id,Assoc.put k e (flatten l.entries)⟩)⟩) := by
  have ht : Rooted s.pages t := hs.tree _ rfl
  have hle := ht.leafEntries hl
  have hput := hle.put hk (by simpa using hfit) e
  have hlt := hn.lt hs.sound
  have hpages : overflowPages (Assoc.put k e (flatten l.entries)) = e.pages :=
    overflowPages_put k e l.entries ((sorted_flatten _).mp hle.sorted)
  obtain ⟨hw,hsh⟩ := shows_rewrite e.writes hs hl hput (fun x hx => mem_put_key hx)
    (hpages.symm ▸ hn) (by rw [hpages,Slot.writes,chainWrites_ids]) (chunkWrites_length hlt)
    fun f hf => put_stored hlt hf
  refine ⟨.refl hs.sound,commitTx,_,_,0,isCommit_commitTx,?_,hw,by simp [Slot.writes],
    storeInLeaf_edit_run hle hk hfit (nextOf_lt hs.sound ht hl) path e.pages s,?_⟩
  · exact (e.writes_chain hlt).bind (((writes_page l.id _).wrap _).bind (writes_pure 0))
  · rw [newRootID_zero]
    exact hsh

theorem prepared_delete (hs : Shows s.pages s.rootPageID (some ⟨H,t⟩)) (hl : Located t k c l)
    (hmem : k ∈ l.entries.map Prod.fst) :
    Prepared (deleteFromLeaf k l.id (s.pages.body l.id)) s s 1
      (some ⟨H,c.plug (.leaf ⟨l.id,Assoc.erase k (flatten l.entries)⟩)⟩) := by
  have ht : Rooted s.pages t := hs.tree _ rfl
  have hle := ht.leafEntries hl
  have her := hle.erase k
  have hpages : overflowPages (Assoc.erase k (flatten l.entries)) = [] := by
    refine List.flatMap_eq_nil_iff.mpr fun x hx => ?_
    exact List.flatMap_eq_nil_iff.mp (overflowPages_flatten l.entries) x (Assoc.mem_erase.mp hx).1
  have hnext := nextOf_lt hs.sound ht hl
  have hkeys : ∀ x ∈ Assoc.erase k (flatten l.entries), x.1 = k ∨ x.1 ∈ l.entries.map Prod.fst := by
    intro x hx
    rw [← flatten_keys]
    exact .inr (List.mem_map_of_mem (Assoc.mem_erase.mp hx).1)
  obtain ⟨hw,hsh⟩ := shows_rewrite [] hs hl her hkeys (hpages.symm ▸ ⟨by simp,by simp⟩)
    hpages.symm (by simp) fun f _ x hx => flatten_stored x (Assoc.mem_erase.mp hx).1
  refine ⟨.refl hs.sound,commitTx,leafBody [] [] l.id
    (leafBytes (Assoc.erase k (flatten l.entries)) (nextOf c)),_,0,isCommit_commitTx,?_,hw,rfl,?_,?_⟩
  · exact (writes_pure ()).bind (((writes_page l.id _).wrap _).bind (writes_pure 0))
  · have hd := decodeLeafNode_flatten (leafRun_located ht hl).2.1
    rw [← packedEntries_keys,← packedEntries_vals] at hd
    have he := deleteFromLeaf_hit (k := k) l.id (sorted_packedEntries.mpr hle.sorted) hd (by
      rw [exists_key_iff,packedEntries_keys,flatten_keys]
      exact hmem)
    have hm : Assoc.erase k (packedEntries (flatten l.entries)) =
        packedEntries (Assoc.erase k (flatten l.entries)) := Assoc.erase_map Slot.packed k _
    rw [hm,packedEntries_keys,packedEntries_vals] at he
    rw [he]
    exact Prog.bind_ok (codec_ok (her.encode hnext).1 s)
  · rw [newRootID_zero]
    exact hsh

end Leaf

/-- The number of pages that `insertIntoParent` writes along a path. -/
def parentCount : List PathEntry → ℕ
  | [] => 2
  | parent::path => if parent.keys.length < maxInternalKeys then 1 else 2+parentCount path

lemma parentWrites_length {h H : ℕ} (c : Ctx Key Slot h H) (child l r : ℕ) (k : Key) (pool : List ℕ) :
    (parentWrites c.path l r k pool).length = parentCount (pathEntries c child) := by
  induction c generalizing child l r k pool with
  | root => rfl
  | @step h H f up ih =>
    rw [pathEntries,parentCount,entryOf_width]
    simp only [parentWrites,Ctx.path]
    generalize f.map (rootId h) = g
    by_cases hlt : g.width < maxInternalKeys
    · rw [if_pos hlt,Ctx.climb_of_lt hlt,Ctx.newRoot_of_lt hlt]
      rfl
    · rw [if_neg hlt,← ih f.id g.id (pool.headD 0) ((g.fillTwo l k r).middle (g.fillTwo_pos l r k))
        pool.tail,
        Ctx.climb_of_ge hlt,Ctx.newRoot_of_ge hlt]
      simp only [parentWrites,List.map_cons,List.cons_append,List.length_cons]
      omega

section Split
variable {s : Store} {H : ℕ} {t : Tree Key Slot H} {k : Key} {c : Ctx Key Slot 0 H}
  {l : Leaf Key Slot} {e : Slot}

lemma split_alloc {n : ℕ} (hs : Sound s.pages) (hroom : s.pages.pageCount+(n+2) ≤ maxPages)
    (hc : s.Clear .alloc (n+2)) (f : ℕ → List ℕ → Cmd Unit) :
    ∃ b pool q, (do
        let b ← wrap "kv: allocate new leaf" allocatePage
        let pool ← allocMany "kv: pre-allocate for internal split" (n+1)
        f b pool) s = f b pool (s.after .alloc (n+2) q) ∧
      pool.length = n+1 ∧ Extends s.pages q (b::pool) := by
  obtain ⟨hc0,hc1⟩ := Store.clear_succ.mp hc
  obtain ⟨b,q,ha,hx,hr⟩ := allocatePage_ok hs hroom hc0
  obtain ⟨pool,r,hm,hlen,hy⟩ := allocMany_ok (s := s.after .alloc 1 q)
    "kv: pre-allocate for internal split" hx.sound hr hc1
  rw [Store.after_after,Nat.add_comm 1] at hm
  have hrun : wrap "kv: allocate new leaf" allocatePage s = (.ok b,s.after .alloc 1 q) := ha.wrap _
  exact ⟨b,pool,r,(Prog.bind_ok hrun).trans (Prog.bind_ok hm),hlen,hx.trans hy⟩

lemma split_alloc_fault {n : ℕ} (hs : Sound s.pages) (hroom : s.pages.pageCount+(n+2) ≤ maxPages)
    (hc : ¬s.Clear .alloc (n+2)) (f : ℕ → List ℕ → Cmd Unit) :
    ∃ s', Ends (do
        let b ← wrap "kv: allocate new leaf" allocatePage
        let pool ← allocMany "kv: pre-allocate for internal split" (n+1)
        f b pool) s none s' ∧ Quiet s s' := by
  cases hf : s.faults .alloc (s.seen .alloc) with
  | true => exact ⟨_,((ends_fault hf).wrap _).bind_none,quiet_alloc (.refl hs) 1⟩
  | false =>
    obtain ⟨b,q,ha,hx,hr⟩ := allocatePage_ok hs hroom hf
    obtain ⟨pool,m,r,hm,hy⟩ := allocMany_fault (s := s.after .alloc 1 q)
      "kv: pre-allocate for internal split" hx.sound hr fun h => hc (Store.clear_succ.mpr ⟨hf,h⟩)
    rw [Store.after_after] at hm
    exact ⟨_,(ha.wrap _).bind hm.bind_none,quiet_alloc (hx.trans hy) _⟩

lemma Extends.splitPages {p q : PageStore} {es : List (Key × Slot)} {b : ℕ} {pool : List ℕ}
    (hx : Extends p q (b::pool)) (ht : Rooted p t) (hn : NewPages p t (overflowPages es)) :
    SplitPages q t es b pool where
  nodup := hn.nodup
  fresh id hid := ⟨(hn.fresh id hid).1,(hx.keep id (hn.fresh id hid).2.1).1,(hn.fresh id hid).2.2⟩
  nodup_nodes := hx.nodup
  fresh_nodes id hid := by
    obtain ⟨h1,h2,h3⟩ := hx.fresh id hid
    exact ⟨fun hm => h1 (ht.live id hm).1,fun hm => h1 (hn.fresh id hm).2.1,h2,h3.ne'⟩

lemma exists_halves {es : List (Key × Slot)} (h : LeafEntries es) (hk : k.length ≤ maxKeySize)
    (hnot : k ∉ es.map Prod.fst) (hfull : maxLeafKeys ≤ es.length) (e : Slot) :
    ∃ as m w bs, (Assoc.put k e es).take ((Assoc.put k e es).length/2) = as ∧
      (Assoc.put k e es).drop ((Assoc.put k e es).length/2) = (m,w)::bs ∧
      Assoc.put k e es = as++(m,w)::bs ∧ as≠[] ∧ LeafEntries as ∧ LeafEntries ((m,w)::bs) := by
  have hlen : (Assoc.put k e es).length = 8 := by
    rw [Assoc.length_put_new fun x hx he => hnot (exists_key_iff.mp ⟨x,hx,he⟩),
      le_antisymm h.count hfull]
    rfl
  have hsort := Assoc.sorted_put k e h.sorted
  have hkey : ∀ x ∈ Assoc.put k e es, x.1.length ≤ maxKeySize := fun x hx =>
    (Assoc.mem_put hx).elim (fun he => he ▸ hk) fun hm => h.key_size x hm.1
  have hpart (fs : List (Key × Slot)) (hf : fs.Sublist (Assoc.put k e es)) (h4 : fs.length = 4) :
      LeafEntries fs :=
    ⟨by rw [h4]; decide,hsort.sublist (hf.map _),fun x hx => hkey x (hf.subset hx)⟩
  have hd : ((Assoc.put k e es).drop 4).length = 4 := by simp [hlen]
  have ht : ((Assoc.put k e es).take 4).length = 4 := by simp [hlen]
  have hpos : 0 < ((Assoc.put k e es).drop 4).length := by omega
  obtain ⟨⟨m,w⟩,bs,hdrop⟩ := List.exists_cons_of_length_pos hpos
  rw [hlen]
  refine ⟨_,m,w,bs,rfl,hdrop,?_,?_,hpart _ (List.take_sublist ..) ht,?_⟩
  · rw [← hdrop]
    exact (List.take_append_drop ..).symm
  · exact List.ne_nil_of_length_pos (by rw [ht]; decide)
  · rw [← hdrop]
    exact hpart _ (List.drop_sublist ..) hd

lemma storeInLeaf_split_run (hs : Sound s.pages) (hle : LeafEntries (flatten l.entries))
    (hk : k.length ≤ maxKeySize) (hnot : k ∉ l.entries.map Prod.fst)
    (hfull : maxLeafKeys ≤ l.entries.length) (hroom : s.pages.pageCount+(c.depth+2) ≤ maxPages)
    (hc : s.Clear .alloc (c.depth+2)) (e : Slot) (next : ℕ) (ids : List ℕ) :
    ∃ as m w bs b pool q, Assoc.put k e (flatten l.entries) = as++(m,w)::bs ∧ as≠[] ∧
      LeafEntries as ∧ LeafEntries ((m,w)::bs) ∧ pool.length = c.depth+1 ∧
      Extends s.pages q (b::pool) ∧
      storeInLeaf (pathEntries c l.id) l.id ((flatten l.entries).map Prod.fst)
          ((flatten l.entries).map (fun e => e.2.packed)) next k ids e.packed s =
        (inTx (wrap "kv: commit split" commitTx) (splitBody ids e.packed l.id b
          (encodeLeafNode (as.map Prod.fst) (as.map (fun e => e.2.packed)) b)
          (encodeLeafNode (((m,w)::bs).map Prod.fst) (((m,w)::bs).map (fun e => e.2.packed)) next)
          (pathEntries c l.id) m pool) >>= publish) (s.after .alloc (c.depth+2) q) := by
  have hnot' : k ∉ (flatten l.entries).map Prod.fst := by simpa using hnot
  obtain ⟨as,m,w,bs,h1,h2,hall,hne,has,hbs⟩ :=
    exists_halves hle hk hnot' (by simpa using hfull) e
  have hleft : (Assoc.put k e.packed (packedEntries (flatten l.entries))).take
      ((Assoc.put k e.packed (packedEntries (flatten l.entries))).length/2) = packedEntries as := by
    rw [put_packed,packedEntries_length,packedEntries,← List.map_take,h1]
    rfl
  have hright : (Assoc.put k e.packed (packedEntries (flatten l.entries))).drop
      ((Assoc.put k e.packed (packedEntries (flatten l.entries))).length/2) =
      packedEntries ((m,w)::bs) := by
    rw [put_packed,packedEntries_length,packedEntries,← List.map_drop,h2]
    rfl
  have hrun := storeInLeaf_split ids (pathEntries c l.id) l.id next
    (sorted_packedEntries.mpr hle.sorted)
    (fun x hx he => hnot' (by rw [← packedEntries_keys]; exact exists_key_iff.mp ⟨x,hx,he⟩))
    (by simpa using hfull) hleft hright
  simp only [packedEntries_keys,packedEntries_vals,pathEntries_length] at hrun
  obtain ⟨b,pool,q,hq,hlen,hx⟩ := split_alloc hs hroom hc fun b pool =>
    inTx (wrap "kv: commit split" commitTx) (splitBody ids e.packed l.id b
      (encodeLeafNode (as.map Prod.fst) (as.map (fun e => e.2.packed)) b)
      (encodeLeafNode (((m,w)::bs).map Prod.fst) (((m,w)::bs).map (fun e => e.2.packed)) next)
      (pathEntries c l.id) ((((m,w)::bs).map Prod.fst).headD []) pool) >>= publish
  exact ⟨as,m,w,bs,b,pool,q,hall,hne,has,hbs,hlen,hx,(congrFun hrun s).trans hq⟩

theorem prepared_split (hs : Shows s.pages s.rootPageID (some ⟨H,t⟩)) (hl : Located t k c l)
    (hk : k.length ≤ maxKeySize) (hn : NewPages s.pages t e.pages)
    (hnot : k ∉ l.entries.map Prod.fst) (hfull : maxLeafKeys ≤ l.entries.length)
    (hroom : s.pages.pageCount+(c.depth+2) ≤ maxPages) (hc : s.Clear .alloc (c.depth+2)) :
    ∃ s₁ o, Prepared (storeInLeaf (pathEntries c l.id) l.id ((flatten l.entries).map Prod.fst)
        ((flatten l.entries).map (fun e => e.2.packed)) (nextOf c) k e.pages e.packed) s s₁
        (e.pages.length+2+parentCount (pathEntries c l.id)) (some o) ∧
      entries o.1 o.2 = c.entriesL++Assoc.put k e (flatten l.entries)++c.entriesR ∧
      s₁.pages.pageCount ≤ s.pages.pageCount+(c.depth+2) ∧
      ((∀ f ∈ c.path, maxInternalKeys ≤ f.width) →
        Accounts s.pages (some ⟨H,t⟩) e.pages (overflowPages l.entries) s₁.pages (some o)) := by
  have ht : Rooted s.pages t := hs.tree _ rfl
  have hle := ht.leafEntries hl
  obtain ⟨as,m,w,bs,b,pool,q,hall,hne,has,hbs,hlen,hx,hrun⟩ :=
    storeInLeaf_split_run hs.sound hle hk hnot hfull hroom hc e (nextOf c) e.pages
  have hpages : overflowPages (as++(m,w)::bs) = e.pages := by
    rw [← hall]
    exact overflowPages_put k e l.entries ((sorted_flatten _).mp hle.sorted)
  have hsq := hs.extend hx
  have htq : Rooted q t := hsq.tree _ rfl
  have hlt : ∀ id ∈ e.pages, id < 256^8 := hn.lt hs.sound
  have hp : c.depth < pool.length := by omega
  obtain ⟨hfit,hw,hsh⟩ := shows_split e.writes hsq hl hne (hall ▸ Assoc.sorted_put k e hle.sorted) has hbs
    (fun x hx => mem_put_key (hall ▸ hx)) (hx.splitPages ht (hpages.symm ▸ hn)) hp
    (by rw [hpages,Slot.writes,chainWrites_ids]) (chunkWrites_length hlt) fun f hf =>
      hall ▸ put_stored hlt hf
  have hb : b < 256^8 := hx.sound.live_lt_word (hx.fresh b (List.mem_cons_self ..)).2.1
  refine ⟨s.after .alloc (c.depth+2) q,splitTree c l as m w bs b pool,
    ⟨quiet_alloc hx _,_,_,_,_,isCommit_wrap _,?_,hw,?_,hrun,hsh⟩,?_,?_,fun hpath => ?_⟩
  · exact (e.writes_chain hlt).bind
      ((writes_codec (has.encode hb).1).bind (((writes_page l.id _).wrap _).bind
      ((writes_codec (hbs.encode (nextOf_lt hx.sound htq hl)).1).bind (((writes_page b _).wrap _).bind
        (writes_insertIntoParent c l.id l.id b m pool hp hfit)))))
  · simp only [splitWrites,List.length_append,List.length_cons,Slot.writes,chainWrites_length,
      parentWrites_length c l.id]
    omega
  · rw [entries_splitTree,hall]
  · have hg := hx.grow
    rw [List.length_cons,hlen] at hg
    exact hg
  · rw [← hpages]
    exact accounts_split hl hx hlen hpath as bs m w

end Split
end Plomvix.KV
