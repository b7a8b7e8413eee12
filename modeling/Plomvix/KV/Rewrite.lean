import Plomvix.KV.Plan

/-! A tree after its pages were written: one leaf rewritten in place, or a leaf split and
the split carried up the path. -/
namespace Plomvix.KV
open Lib Pager BPlus

@[simp] lemma overflowPages_nil : overflowPages [] = [] := rfl

@[simp] lemma overflowPages_cons (e : Key × Slot) (es : List (Key × Slot)) :
    overflowPages (e::es) = e.2.pages++overflowPages es := List.flatMap_cons

@[simp] lemma overflowPages_append (as bs : List (Key × Slot)) :
    overflowPages (as++bs) = overflowPages as++overflowPages bs := by simp [overflowPages]

@[simp] lemma written_live (p : PageStore) (ws : List (ℕ × Bytes)) (id : ℕ) :
    (written p ws).Live id ↔ p.Live id := Iff.rfl

lemma Sound.written {p : PageStore} (h : Sound p) (ws : List (ℕ × Bytes)) : Sound (written p ws) :=
  ⟨rfl,h.bound,h.free_nodup,h.free,h.meta_lt⟩

section Around
variable {p : PageStore} {H : ℕ} {t : Tree Key Slot H} {k : Key} {c : Ctx Key Slot 0 H}
  {l : Leaf Key Slot}

def nextOf (c : Ctx Key Slot 0 H) : ℕ := (c.leavesR.map Leaf.id).headD rootSentinel

def pagesAround (c : Ctx Key Slot 0 H) (a : ℕ) : List ℕ :=
  c.leavesL.map Leaf.id++c.leavesR.map Leaf.id++(c.inners a).map Inner.id++
    (overflowPages c.entriesL++overflowPages c.entriesR)

lemma pagesOf_plug (c : Ctx Key Slot 0 H) (l : Leaf Key Slot) :
    (pagesOf (c.plug (.leaf l))).Perm (l.id::(pagesAround c l.id++overflowPages l.entries)) := by
  have hi := (Ctx.inners_plug c (.leaf l)).map Inner.id
  refine List.perm_iff_count.mpr fun x => ?_
  have hx := List.perm_iff_count.mp hi x
  simp only [pagesOf,ids,pagesAround,Ctx.leaves_plug,Ctx.entries_plug,leaves_leaf,inners_leaf,
    rootId_leaf,List.append_nil,List.map_append,List.map_cons,List.map_nil,List.count_append,
    List.count_cons,List.count_nil,overflowPages_append] at hx ⊢
  simp only [entries,leaves_leaf,List.flatMap_cons,List.flatMap_nil,List.append_nil]
  omega

lemma pagesOf_located (hl : Located t k c l) :
    (pagesOf t).Perm (l.id::(pagesAround c l.id++overflowPages l.entries)) := by
  have h := pagesOf_plug c l
  rwa [hl.plug] at h

lemma leaves_located (hl : Located t k c l) : leaves H t = c.leavesL++l::c.leavesR := by
  rw [← hl.plug,Ctx.leaves_plug]
  simp

lemma mem_inners_located (hl : Located t k c l) (n : BPlus.Inner Key ℕ) :
    n ∈ inners H t ↔ n ∈ c.inners l.id := by
  rw [← hl.plug,(Ctx.inners_plug c _).mem_iff]
  simp

lemma leafRun_located (ht : Rooted p t) (hl : Located t k c l) :
    LeafRun p.body l.id c.leavesL ∧
      decodeLeafNodeRefs (p.body l.id) =
        .ok (l.entries.map Prod.fst,l.entries.map (fun e => e.2.ref),nextOf c) ∧
      LeafRun p.body rootSentinel c.leavesR := by
  have h := ht.holds.leaf
  rw [leaves_located hl,leafRun_append] at h
  exact ⟨h.1,h.2.1,h.2.2⟩

lemma pagesAround_located (ht : Rooted p t) (hl : Located t k c l) :
    (pagesAround c l.id).Nodup ∧ ∀ id ∈ pagesAround c l.id, id ∈ pagesOf t ∧ id≠l.id := by
  have hp := pagesOf_located hl
  obtain ⟨h1,h2⟩ := List.nodup_cons.mp (hp.nodup_iff.mp ht.nodup)
  refine ⟨(List.nodup_append.mp h2).1,fun id hid => ⟨hp.mem_iff.mpr ?_,fun he => h1 ?_⟩⟩
  · exact List.mem_cons_of_mem _ (List.mem_append_left _ hid)
  · rw [he] at hid
    exact List.mem_append_left _ hid

lemma leafL_mem_around {x : Leaf Key Slot} (h : x ∈ c.leavesL) (a : ℕ) : x.id ∈ pagesAround c a := by
  simp only [pagesAround,List.mem_append]
  exact .inl (.inl (.inl (List.mem_map_of_mem h)))

lemma leafR_mem_around {x : Leaf Key Slot} (h : x ∈ c.leavesR) (a : ℕ) : x.id ∈ pagesAround c a := by
  simp only [pagesAround,List.mem_append]
  exact .inl (.inl (.inr (List.mem_map_of_mem h)))

lemma inner_mem_around {n : BPlus.Inner Key ℕ} {a : ℕ} (h : n ∈ c.inners a) : n.id ∈ pagesAround c a := by
  simp only [pagesAround,List.mem_append]
  exact .inl (.inr (List.mem_map_of_mem h))

lemma overflow_mem_around {e : Key × Slot} (h : e ∈ c.entriesL ∨ e ∈ c.entriesR) {id : ℕ}
    (hid : id ∈ e.2.pages) (a : ℕ) : id ∈ pagesAround c a := by
  simp only [pagesAround,List.mem_append]
  exact .inr (h.imp (fun h => List.mem_flatMap.mpr ⟨e,h,hid⟩) fun h => List.mem_flatMap.mpr ⟨e,h,hid⟩)

section Nodup
variable (hnd : (pagesOf t).Nodup) {n : BPlus.Inner Key ℕ} (hn : n ∈ inners H t)
include hnd hn

lemma leaf_ne_inner {x : Leaf Key Slot} (hx : x ∈ leaves H t) : x.id≠n.id :=
  (List.nodup_append.mp (List.nodup_append.mp hnd).1).2.2 _ (List.mem_map_of_mem hx) _
    (List.mem_map_of_mem hn)

lemma overflow_ne_inner {e : Key × Slot} (he : e ∈ entries H t) {id : ℕ} (hid : id ∈ e.2.pages) :
    id≠n.id := fun h =>
  (List.nodup_append.mp hnd).2.2 _ (List.mem_append_right _ (List.mem_map_of_mem hn)) _
    (List.mem_flatMap.mpr ⟨e,he,hid⟩) h.symm

lemma inner_eq_of_id {x : BPlus.Inner Key ℕ} (hx : x ∈ inners H t) (he : x.id = n.id) : x = n :=
  List.inj_on_of_nodup_map (List.nodup_append.mp (List.nodup_append.mp hnd).1).2.1 hx hn he

end Nodup
end Around

section Edit
variable {p : PageStore} {H : ℕ} {t : Tree Key Slot H} {k : Key} {c : Ctx Key Slot 0 H}
  {l : Leaf Key Slot} {es : List (Key × Slot)} {ws : List (ℕ × Bytes)}

/-- Pages allocated for a change of the tree and not yet part of it. -/
structure NewPages (p : PageStore) (t : Tree Key Slot H) (ids : List ℕ) : Prop where
  nodup : ids.Nodup
  fresh : ∀ id ∈ ids, id ∉ pagesOf t ∧ p.Live id ∧ id≠metaPageID

theorem Rooted.rewrite (ht : Rooted p t) (hl : Located t k c l) (hes : LeafEntries es)
    (hk : ∀ e ∈ es, e.1 = k ∨ e.1 ∈ l.entries.map Prod.fst) (hn : NewPages p t (overflowPages es))
    (hids : ws.map Prod.fst = overflowPages es++[l.id])
    (hleaf : (l.id,leafBytes es (nextOf c)) ∈ ws) (hst : ∀ e ∈ es, e.2.Stored (patch p.body ws))
    (hnext : nextOf c < 256^8) : Rooted (written p ws) (c.plug (.leaf ⟨l.id,es⟩)) := by
  obtain ⟨hand,haround⟩ := pagesAround_located ht hl
  have hlid : l.id ∈ pagesOf t := leaf_mem_pagesOf hl.mem_leaves
  have hwnd : (ws.map Prod.fst).Nodup := by
    rw [hids]
    refine List.nodup_append.mpr ⟨hn.nodup,by simp,fun x hx y hy he => ?_⟩
    rw [List.mem_singleton.mp hy] at he
    exact (hn.fresh x hx).1 (he ▸ hlid)
  have hkeep : ∀ id ∈ pagesAround c l.id, patch p.body ws id = p.body id := by
    intro id hid
    obtain ⟨h1,h2⟩ := haround id hid
    refine patch_not_mem ?_
    rw [hids,List.mem_append,List.mem_singleton]
    exact fun hm => hm.elim (fun ho => (hn.fresh id ho).1 h1) h2
  have hdec := (hes.encode hnext).2
  rw [← patch_mem (f := p.body) hwnd hleaf] at hdec
  obtain ⟨hrunL,-,hrunR⟩ := leafRun_located ht hl
  have hleaves : leaves H (c.plug (.leaf ⟨l.id,es⟩)) = c.leavesL++⟨l.id,es⟩::c.leavesR := by
    rw [Ctx.leaves_plug]
    simp
  have hinners (n : BPlus.Inner Key ℕ) : n ∈ inners H (c.plug (.leaf ⟨l.id,es⟩)) ↔ n ∈ inners H t := by
    rw [mem_inners_located hl,(Ctx.inners_plug c _).mem_iff]
    simp
  have hents : entries H (c.plug (.leaf ⟨l.id,es⟩)) = c.entriesL++es++c.entriesR := by
    rw [Ctx.entries_plug]
    simp [entries]
  have hold : ∀ e, e ∈ c.entriesL ∨ e ∈ c.entriesR → e ∈ entries H t := fun e he => by
    rw [hl.entries_eq]
    simp only [List.mem_append]
    tauto
  refine ⟨⟨fun n hm => ?_,?_,?_⟩,hl.ordered_edit ht.ordered l.id hes.sorted hk,?_,?_,?_,?_,?_⟩
  · rw [hinners] at hm
    change decodeInternalNode (patch p.body ws n.id) = _
    rw [hkeep n.id (inner_mem_around ((mem_inners_located hl n).mp hm))]
    exact ht.holds.inner n hm
  · rw [hleaves,leafRun_append]
    exact ⟨hrunL.frame fun x hx => hkeep x.id (leafL_mem_around hx _),hdec,
      hrunR.frame fun x hx => hkeep x.id (leafR_mem_around hx _)⟩
  · intro e he
    rw [hents,List.mem_append,List.mem_append] at he
    by_cases hm : e ∈ es
    · exact hst e hm
    · have ho : e ∈ c.entriesL ∨ e ∈ c.entriesR := by tauto
      exact (ht.holds.slot e (hold e ho)).frame fun id hid => hkeep id (overflow_mem_around ho hid _)
  · intro i hi
    rw [Ctx.items_plug,List.mem_append,List.mem_append] at hi
    have ho := ht.key_size
    rw [← hl.plug,Ctx.items_plug] at ho
    by_cases hm : i ∈ items 0 (.leaf ⟨l.id,es⟩)
    · obtain ⟨e,he,rfl⟩ := List.mem_map.mp hm
      exact hes.key_size e he
    · refine ho i ?_
      simp only [List.mem_append]
      tauto
  · intro x hx
    rw [hleaves,List.mem_append,List.mem_cons] at hx
    by_cases hm : x = ⟨l.id,es⟩
    · rw [hm]
      exact hes.count
    · refine ht.leaf_size x ?_
      rw [leaves_located hl,List.mem_append,List.mem_cons]
      tauto
  · exact fun n hm => ht.inner_size n ((hinners n).mp hm)
  · refine (pagesOf_plug c ⟨l.id,es⟩).nodup_iff.mpr (List.nodup_cons.mpr ⟨fun hm => ?_,
      List.nodup_append.mpr ⟨hand,hn.nodup,fun x hx y hy he => ?_⟩⟩)
    · cases List.mem_append.mp hm with
      | inl h => exact (haround _ h).2 rfl
      | inr h => exact (hn.fresh _ h).1 hlid
    · exact (hn.fresh y hy).1 (he ▸ (haround x hx).1)
  · intro id hid
    have hm := (pagesOf_plug c ⟨l.id,es⟩).mem_iff.mp hid
    rw [List.mem_cons,List.mem_append] at hm
    obtain h | h | h := hm
    · exact ht.live id (by rw [h]; exact hlid)
    · exact ht.live id (haround id h).1
    · exact (hn.fresh id h).2

end Edit

section Split
open Ctx
variable {p : PageStore} {H : ℕ} {t : Tree Key Slot H} {k m : Key} {w : Slot} {c : Ctx Key Slot 0 H}
  {l : Leaf Key Slot} {es fs : List (Key × Slot)} {b : ℕ} {pool : List ℕ}

/-- New pages for a split: the right leaf's and those for inner nodes. -/
structure SplitPages (p : PageStore) (t : Tree Key Slot H) (es : List (Key × Slot)) (b : ℕ)
    (pool : List ℕ) : Prop extends NewPages p t (overflowPages es) where
  nodup_nodes : (b::pool).Nodup
  fresh_nodes : ∀ id ∈ b::pool, id ∉ pagesOf t ∧ id ∉ overflowPages es ∧ p.Live id ∧ id≠metaPageID

/-- The tree after the located leaf was split in `es` and `(m,w)::fs`. -/
def splitTree (c : Ctx Key Slot 0 H) (l : Leaf Key Slot) (es : List (Key × Slot)) (m : Key) (w : Slot)
    (fs : List (Key × Slot)) (b : ℕ) (pool : List ℕ) : (G : ℕ) × Tree Key Slot G :=
  c.insertUp maxInternalKeys (.leaf ⟨l.id,es⟩) m (.leaf ⟨b,(m,w)::fs⟩) pool

lemma leaves_splitTree : leaves _ (splitTree c l es m w fs b pool).2 =
    c.leavesL++⟨l.id,es⟩::⟨b,(m,w)::fs⟩::c.leavesR := by
  rw [splitTree,leaves_insertUp]
  simp

lemma entries_splitTree : entries _ (splitTree c l es m w fs b pool).2 =
    c.entriesL++(es++(m,w)::fs)++c.entriesR := by
  rw [splitTree,entries_insertUp]
  simp [entries]

lemma pagesOf_splitTree (l : Leaf Key Slot) (es fs : List (Key × Slot)) (m : Key) (w : Slot) (b : ℕ)
    (hp : c.depth < pool.length) :
    ∃ n, (pagesOf (splitTree c l es m w fs b pool).2).Perm
      (l.id::b::(pagesAround c l.id++overflowPages (es++(m,w)::fs)++pool.take n)) ∧
      ((∀ f ∈ c.path, maxInternalKeys ≤ f.width) → c.depth < n) := by
  obtain ⟨n,hi,hfull⟩ := inner_ids_insertUp maxInternalKeys c (.leaf ⟨l.id,es⟩)
    (.leaf ⟨b,(m,w)::fs⟩) m pool hp
  refine ⟨n,List.perm_iff_count.mpr fun x => ?_,hfull⟩
  have hx := List.perm_iff_count.mp hi x
  rw [pagesOf,ids,leaves_splitTree,entries_splitTree]
  simp only [splitTree,pagesAround,inners_leaf,rootId_leaf,List.map_append,List.map_cons,List.map_nil,
    List.append_nil,List.count_append,List.count_cons,overflowPages_append] at hx ⊢
  omega

def splitNodes (c : Ctx Key Slot 0 H) (l : Leaf Key Slot) (m : Key) (b : ℕ) (pool : List ℕ) :
    List (BPlus.Inner Key ℕ) := climb maxInternalKeys c.path l.id m b pool

lemma splitNodes_subset {n : BPlus.Inner Key ℕ} (hn : n ∈ splitNodes c l m b pool) :
    n ∈ inners _ (splitTree c l es m w fs b pool).2 :=
  climb_subset_insertUp maxInternalKeys c _ _ _ _ n hn

lemma mem_inners_splitTree {n : BPlus.Inner Key ℕ} (hn : n ∈ inners _ (splitTree c l es m w fs b pool).2) :
    n ∈ splitNodes c l m b pool ∨ n ∈ c.inners l.id := by
  have h := mem_inners_insertUp maxInternalKeys c _ _ _ _ n hn
  simpa [splitNodes] using h

def splitWrites (pre : List (ℕ × Bytes)) (c : Ctx Key Slot 0 H) (l : Leaf Key Slot)
    (es : List (Key × Slot)) (m : Key) (w : Slot) (fs : List (Key × Slot)) (b : ℕ) (pool : List ℕ) :
    List (ℕ × Bytes) :=
  pre++(l.id,leafBytes es b)::(b,leafBytes ((m,w)::fs) (nextOf c))::parentWrites c.path l.id b m pool

lemma path_mem_around {id : ℕ} (hid : id ∈ c.path.map Frame.id) (a : ℕ) : id ∈ pagesAround c a := by
  obtain ⟨n,hm,rfl⟩ := List.mem_map.mp ((path_sublist c a).subset hid)
  exact inner_mem_around hm

section Pages
variable (ht : Rooted p t) (hl : Located t k c l) (hn : SplitPages p t (es++(m,w)::fs) b pool)
  (hp : c.depth < pool.length)
include ht hl hn hp

lemma splitTree_nodup : (pagesOf (splitTree c l es m w fs b pool).2).Nodup := by
  obtain ⟨n,hperm,-⟩ := pagesOf_splitTree l es fs m w b hp
  obtain ⟨hand,haround⟩ := pagesAround_located ht hl
  have hlid : l.id ∈ pagesOf t := leaf_mem_pagesOf hl.mem_leaves
  obtain ⟨hb,hpool⟩ := List.nodup_cons.mp hn.nodup_nodes
  have hpf : ∀ id ∈ pool.take n, id ∉ pagesOf t ∧ id ∉ overflowPages (es++(m,w)::fs) := fun id hid =>
    have h := hn.fresh_nodes id (List.mem_cons_of_mem _ (List.mem_of_mem_take hid))
    ⟨h.1,h.2.1⟩
  obtain ⟨hb1,hb2,-⟩ := hn.fresh_nodes b (List.mem_cons_self ..)
  refine hperm.nodup_iff.mpr (List.nodup_cons.mpr ⟨fun hm => ?_,List.nodup_cons.mpr ⟨fun hm => ?_,?_⟩⟩)
  · simp only [List.mem_cons,List.mem_append] at hm
    obtain h | (h | h) | h := hm
    · exact hb1 (h ▸ hlid)
    · exact (haround _ h).2 rfl
    · exact (hn.fresh _ h).1 hlid
    · exact (hpf _ h).1 hlid
  · simp only [List.mem_append] at hm
    obtain (h | h) | h := hm
    · exact hb1 (haround _ h).1
    · exact hb2 h
    · exact hb (List.mem_of_mem_take h)
  · refine List.nodup_append.mpr ⟨List.nodup_append.mpr ⟨hand,hn.nodup,fun x hx y hy he => ?_⟩,
      hpool.sublist (List.take_sublist ..),fun x hx y hy he => ?_⟩
    · exact (hn.fresh y hy).1 (he ▸ (haround x hx).1)
    · subst he
      cases List.mem_append.mp hx with
      | inl h => exact (hpf x hy).1 (haround x h).1
      | inr h => exact (hpf x hy).2 h

lemma splitTree_live : ∀ id ∈ pagesOf (splitTree c l es m w fs b pool).2, p.Live id ∧ id≠metaPageID := by
  obtain ⟨n,hperm,-⟩ := pagesOf_splitTree l es fs m w b hp
  intro id hid
  have hm := hperm.mem_iff.mp hid
  simp only [List.mem_cons,List.mem_append] at hm
  obtain h | h | (h | h) | h := hm
  · exact ht.live id (by rw [h]; exact leaf_mem_pagesOf hl.mem_leaves)
  · exact (hn.fresh_nodes id (by simp [h])).2.2
  · exact ht.live id ((pagesAround_located ht hl).2 id h).1
  · exact (hn.fresh id h).2
  · exact (hn.fresh_nodes id (List.mem_cons_of_mem _ (List.mem_of_mem_take h))).2.2

omit hp in
lemma path_pool_nodup : (c.path.map Frame.id++pool).Nodup := by
  obtain ⟨hand,haround⟩ := pagesAround_located ht hl
  have hin : ((c.inners l.id).map Inner.id).Nodup := by
    rw [pagesAround] at hand
    exact (List.nodup_append.mp (List.nodup_append.mp hand).1).2.1
  refine List.nodup_append.mpr ⟨hin.sublist (path_sublist c l.id),(List.nodup_cons.mp hn.nodup_nodes).2,
    fun x hx y hy he => ?_⟩
  exact (hn.fresh_nodes y (List.mem_cons_of_mem _ hy)).1 (he ▸ (haround x (path_mem_around hx _)).1)

lemma splitNodes_apart : ∀ n ∈ splitNodes c l m b pool,
    n.id≠l.id ∧ n.id≠b ∧ n.id ∉ overflowPages (es++(m,w)::fs) ∧ n.id≠metaPageID := by
  intro n hm
  cases climb_ids c.path l.id b m pool (by simpa using hp) n hm with
  | inl h =>
    obtain ⟨h1,h2⟩ := (pagesAround_located ht hl).2 _ (path_mem_around h _)
    refine ⟨h2,fun he => ?_,fun ho => (hn.fresh _ ho).1 h1,(ht.live _ h1).2⟩
    exact (hn.fresh_nodes b (List.mem_cons_self ..)).1 (he ▸ h1)
  | inr h =>
    obtain ⟨h1,h2,-,h4⟩ := hn.fresh_nodes _ (List.mem_cons_of_mem _ h)
    refine ⟨fun he => h1 (he ▸ leaf_mem_pagesOf hl.mem_leaves),fun he => ?_,h2,h4⟩
    exact (List.nodup_cons.mp hn.nodup_nodes).1 (he ▸ h)

lemma splitWrites_nodup {pre : List (ℕ × Bytes)}
    (hpre : pre.map Prod.fst = overflowPages (es++(m,w)::fs)) :
    ((splitWrites pre c l es m w fs b pool).map Prod.fst).Nodup := by
  have hapart := splitNodes_apart ht hl hn hp
  have hlid : l.id ∈ pagesOf t := leaf_mem_pagesOf hl.mem_leaves
  obtain ⟨hb1,hb2,-,hb4⟩ := hn.fresh_nodes b (List.mem_cons_self ..)
  have hclimb : ((splitNodes c l m b pool).map Inner.id).Nodup :=
    climb_nodup c.path l.id b m pool (by simpa using hp) (path_pool_nodup ht hl hn)
  have hmeta : ∀ x ∈ ((newRoot maxInternalKeys c.path pool).map fun id =>
      (metaPageID,encodeMetaPage id)).toList.map Prod.fst, x = metaPageID := by
    cases newRoot maxInternalKeys c.path pool <;> simp
  have hmnd : (((newRoot maxInternalKeys c.path pool).map fun id =>
      (metaPageID,encodeMetaPage id)).toList.map Prod.fst).Nodup := by
    cases newRoot maxInternalKeys c.path pool <;> simp
  have hids : (splitWrites pre c l es m w fs b pool).map Prod.fst = overflowPages (es++(m,w)::fs)++
      l.id::b::((splitNodes c l m b pool).map Inner.id++((newRoot maxInternalKeys c.path pool).map
        fun id => (metaPageID,encodeMetaPage id)).toList.map Prod.fst) := by
    simp only [splitWrites,parentWrites,splitNodes,List.map_append,List.map_cons,hpre,List.map_map]
    rfl
  rw [hids]
  refine List.nodup_append.mpr ⟨hn.nodup,List.nodup_cons.mpr ⟨fun hm => ?_,List.nodup_cons.mpr
    ⟨fun hm => ?_,List.nodup_append.mpr ⟨hclimb,hmnd,fun x hx y hy he => ?_⟩⟩⟩,fun x hx y hy he => ?_⟩
  · simp only [List.mem_cons,List.mem_append] at hm
    obtain h | h | h := hm
    · exact hb1 (h ▸ hlid)
    · obtain ⟨n,hm,he⟩ := List.mem_map.mp h
      exact (hapart n hm).1 he
    · exact (ht.live _ hlid).2 (hmeta _ h)
  · cases List.mem_append.mp hm with
    | inl h =>
      obtain ⟨n,hm,he⟩ := List.mem_map.mp h
      exact (hapart n hm).2.1 he
    | inr h => exact hb4 (hmeta _ h)
  · obtain ⟨n,hm,rfl⟩ := List.mem_map.mp hx
    exact (hapart n hm).2.2.2 (he.trans (hmeta y hy))
  · subst he
    simp only [List.mem_cons,List.mem_append] at hy
    obtain h | h | h | h := hy
    · exact (hn.fresh x hx).1 (h ▸ hlid)
    · exact hb2 (h ▸ hx)
    · obtain ⟨n,hm,rfl⟩ := List.mem_map.mp h
      exact (hapart n hm).2.2.1 hx
    · exact (hn.fresh x hx).2.2 (hmeta x h)

variable (hord : Ordered _ (splitTree c l es m w fs b pool).2)
  (hkey : ∀ e ∈ es++(m,w)::fs, e.1.length ≤ maxKeySize)
include hkey

omit hn hp in
lemma splitTree_key_size : ∀ i ∈ items _ (splitTree c l es m w fs b pool).2,
    i.val.length ≤ maxKeySize := by
  intro i hi
  rw [splitTree,items_insertUp] at hi
  have ho := ht.key_size
  rw [← hl.plug,items_plug] at ho
  simp only [items_leaf,List.mem_append,List.mem_cons,List.mem_map] at hi
  obtain ((h | ⟨e,he,rfl⟩) | rfl | ⟨e,he,rfl⟩) | h := hi
  · exact ho i (by simp [h])
  · exact hkey e (by simp [he])
  · exact hkey (m,w) (by simp)
  · exact hkey e (by simp [he])
  · exact ho i (by simp [h])

include hord

lemma splitNodes_fit (hs : Sound p) : ∀ n ∈ splitNodes c l m b pool, InternalFits n.kids n.keys := by
  intro n hm
  have hin : n ∈ inners _ (splitTree c l es m w fs b pool).2 := splitNodes_subset hm
  refine ⟨n.fit,?_,hord.inner_keys n hin,fun k hk => ?_,fun a ha => ?_⟩
  · refine climb_keys_le (by decide) c.path (fun f hf => ?_) _ _ _ _ n hm
    obtain ⟨x,hx,-,hw⟩ := path_node c l.id f hf
    rw [← hw]
    exact ht.inner_size x ((mem_inners_located hl x).mpr hx)
  · exact splitTree_key_size ht hl hkey _ (sep_mem_items hin hk)
  · have hid : a ∈ pagesOf (splitTree c l es m w fs b pool).2 :=
      List.mem_append_left _ (kid_mem_ids hin ha)
    exact (hs.live_lt (splitTree_live ht hl hn hp a hid).1).trans_le (by norm_num)

theorem Rooted.split {pre : List (ℕ × Bytes)} (hs : Sound p)
    (hpre : pre.map Prod.fst = overflowPages (es++(m,w)::fs)) (hes : LeafEntries es)
    (hfs : LeafEntries ((m,w)::fs))
    (hst : ∀ e ∈ es++(m,w)::fs, e.2.Stored (patch p.body (splitWrites pre c l es m w fs b pool)))
    (hnext : nextOf c < 256^8) :
    Rooted (written p (splitWrites pre c l es m w fs b pool)) (splitTree c l es m w fs b pool).2 := by
  obtain ⟨-,haround⟩ := pagesAround_located ht hl
  have hwnd := splitWrites_nodup ht hl hn hp hpre
  have hfit := splitNodes_fit ht hl hn hp hord hkey hs
  have hnd := splitTree_nodup ht hl hn hp
  obtain ⟨hb1,-,hb3,-⟩ := hn.fresh_nodes b (List.mem_cons_self ..)
  have hblt : b < 256^8 := (hs.live_lt hb3).trans_le (by norm_num)
  -- a page around the leaf is written only if it is one of the split nodes
  have hkeep : ∀ id ∈ pagesAround c l.id, id ∉ (splitNodes c l m b pool).map Inner.id →
      patch p.body (splitWrites pre c l es m w fs b pool) id = p.body id := by
    intro id hid hnode
    obtain ⟨h1,h2⟩ := haround id hid
    refine patch_not_mem fun hm => ?_
    simp only [splitWrites,parentWrites,List.map_append,List.map_cons,List.map_map,hpre,
      List.mem_append,List.mem_cons] at hm
    obtain h | h | h | h | h := hm
    · exact (hn.fresh id h).1 h1
    · exact h2 h
    · exact hb1 (h ▸ h1)
    · exact hnode h
    · refine (ht.live id h1).2 ?_
      revert h
      cases newRoot maxInternalKeys c.path pool <;> simp
  have hleafL : patch p.body (splitWrites pre c l es m w fs b pool) l.id = leafBytes es b :=
    patch_mem hwnd (by simp [splitWrites])
  have hleafR : patch p.body (splitWrites pre c l es m w fs b pool) b =
      leafBytes ((m,w)::fs) (nextOf c) := patch_mem hwnd (by simp [splitWrites])
  have hnode : ∀ n ∈ splitNodes c l m b pool,
      patch p.body (splitWrites pre c l es m w fs b pool) n.id = innerBytes n := by
    intro n hm
    refine patch_mem hwnd ?_
    simp only [splitWrites,parentWrites,List.mem_append,List.mem_cons]
    exact .inr (.inr (.inr (.inl (List.mem_map.mpr ⟨n,hm,rfl⟩))))
  have hlive := splitTree_live ht hl hn hp
  obtain ⟨hrunL,-,hrunR⟩ := leafRun_located ht hl
  have hout : ∀ x, x ∈ c.leavesL ∨ x ∈ c.leavesR →
      patch p.body (splitWrites pre c l es m w fs b pool) x.id = p.body x.id := by
    intro x hx
    refine hkeep x.id (hx.elim (leafL_mem_around · _) (leafR_mem_around · _)) fun hm => ?_
    obtain ⟨n,hm,he⟩ := List.mem_map.mp hm
    refine leaf_ne_inner hnd (splitNodes_subset hm) ?_ he.symm
    rw [leaves_splitTree]
    simp only [List.mem_append,List.mem_cons]
    tauto
  refine ⟨⟨fun n hm => ?_,?_,fun e he => ?_⟩,hord,splitTree_key_size ht hl hkey,fun x hx => ?_,
    fun n hm => ?_,hnd,hlive⟩
  · change decodeInternalNode (patch p.body _ n.id) = _
    by_cases hc : n ∈ splitNodes c l m b pool
    · rw [hnode n hc]
      exact (innerBytes_encode (hfit n hc)).2
    · have hold := (mem_inners_splitTree hm).resolve_left hc
      rw [hkeep n.id (inner_mem_around hold)]
      · exact ht.holds.inner n ((mem_inners_located hl n).mpr hold)
      · intro hx
        obtain ⟨x,hx,he⟩ := List.mem_map.mp hx
        exact hc (inner_eq_of_id hnd hm (splitNodes_subset hx) he ▸ hx)
  · rw [leaves_splitTree,leafRun_append]
    refine ⟨hrunL.frame fun x hx => hout x (.inl hx),?_,?_,hrunR.frame fun x hx => hout x (.inr hx)⟩
    · change decodeLeafNodeRefs (patch p.body _ l.id) = _
      rw [hleafL]
      exact (hes.encode hblt).2
    · change decodeLeafNodeRefs (patch p.body _ b) = _
      rw [hleafR]
      exact (hfs.encode hnext).2
  · have hm := he
    rw [entries_splitTree,List.mem_append,List.mem_append] at hm
    by_cases hx : e ∈ es++(m,w)::fs
    · exact hst e hx
    · have ho : e ∈ c.entriesL ∨ e ∈ c.entriesR := by tauto
      have hold : e ∈ entries H t := by
        rw [hl.entries_eq]
        simp only [List.mem_append]
        tauto
      refine (ht.holds.slot e hold).frame fun id hid => hkeep id (overflow_mem_around ho hid _) ?_
      intro hm
      obtain ⟨n,hm,hi⟩ := List.mem_map.mp hm
      exact overflow_ne_inner hnd (splitNodes_subset hm) he hid hi.symm
  · rw [leaves_splitTree,List.mem_append,List.mem_cons,List.mem_cons] at hx
    obtain h | h | h | h := hx
    · exact ht.leaf_size x (by rw [leaves_located hl]; simp [h])
    · rw [h]
      exact hes.count
    · rw [h]
      exact hfs.count
    · exact ht.leaf_size x (by rw [leaves_located hl]; simp [h])
  · by_cases hc : n ∈ splitNodes c l m b pool
    · exact (hfit n hc).count
    · exact ht.inner_size n ((mem_inners_located hl n).mpr ((mem_inners_splitTree hm).resolve_left hc))

end Pages
end Split

/-- The pages of a tree. -/
def Root.pages : Root → List ℕ
  | none => []
  | some x => pagesOf x.2

/-- Every page in use afterwards is on the new tree, or was in use before: neither among `new`
nor, unless it is among `lost`, on the old tree. -/
def Accounts (p : PageStore) (o : Root) (new lost : List ℕ) (q : PageStore) (o' : Root) : Prop :=
  ∀ id, q.Live id → id ∈ o'.pages ∨ p.Live id ∧ id ∉ new ∧ (id ∈ o.pages → id ∈ lost)

section Accounts
variable {H : ℕ} {t : Tree Key Slot H} {k : Key} {c : Ctx Key Slot 0 H} {l : Leaf Key Slot}
  {p q : PageStore}

lemma accounts_plug (p : PageStore) (hl : Located t k c l) (es : List (Key × Slot)) :
    Accounts p (some ⟨H,t⟩) (overflowPages es) (overflowPages l.entries) p
      (some ⟨H,c.plug (.leaf ⟨l.id,es⟩)⟩) := by
  intro id hlive
  by_cases hnew : id ∈ pagesOf (c.plug (.leaf ⟨l.id,es⟩))
  · exact .inl hnew
  · have hout := mt (pagesOf_plug c ⟨l.id,es⟩).mem_iff.mpr hnew
    simp only [List.mem_cons,List.mem_append,not_or] at hout
    refine .inr ⟨hlive,hout.2.2,fun hold => ?_⟩
    have hm := (pagesOf_located hl).mem_iff.mp hold
    simp only [List.mem_cons,List.mem_append] at hm
    exact (hm.resolve_left hout.1).resolve_left hout.2.1

lemma accounts_split (hl : Located t k c l) {b : ℕ} {pool : List ℕ} (hx : Extends p q (b::pool))
    (hlen : pool.length = c.depth+1) (hfull : ∀ f ∈ c.path, maxInternalKeys ≤ f.width)
    (es fs : List (Key × Slot)) (m : Key) (w : Slot) :
    Accounts p (some ⟨H,t⟩) (overflowPages (es++(m,w)::fs)) (overflowPages l.entries) q
      (some (splitTree c l es m w fs b pool)) := by
  obtain ⟨n,hperm,hn⟩ :=
    pagesOf_splitTree l es fs m w b (hlen ▸ Nat.lt_succ_self _ : c.depth < pool.length)
  have hall : pool.take n = pool := List.take_of_length_le (by have := hn hfull; omega)
  rw [hall] at hperm
  intro id hlive
  by_cases hnew : id ∈ pagesOf (splitTree c l es m w fs b pool).2
  · exact .inl hnew
  · have hout := mt hperm.mem_iff.mpr hnew
    simp only [List.mem_cons,List.mem_append,not_or] at hout
    obtain ⟨h1,h2,⟨h3,h4⟩,h5⟩ := hout
    have hold : p.Live id := (hx.cover id hlive).resolve_right fun hm => (List.mem_cons.mp hm).elim h2 h5
    refine .inr ⟨hold,h4,fun hold => ?_⟩
    have hm := (pagesOf_located hl).mem_iff.mp hold
    simp only [List.mem_cons,List.mem_append] at hm
    exact (hm.resolve_left h1).resolve_left h3

lemma Accounts.after {p₀ : PageStore} {o o' : Root} {ids lost : List ℕ} (h : Accounts p o ids lost q o')
    (hx : Extends p₀ p ids) : Accounts p₀ o [] lost q o' := by
  intro id hlive
  refine (h id hlive).imp_right fun ⟨hp,hnew,hold⟩ => ⟨(hx.cover id hp).resolve_right hnew,?_,hold⟩
  exact List.not_mem_nil

lemma Accounts.none {o o' : Root} {ids lost : List ℕ} (h : Accounts p o ids lost q o') :
    Accounts p o [] lost q o' := fun id hlive =>
  (h id hlive).imp_right fun ⟨hp,_,hold⟩ => ⟨hp,List.not_mem_nil,hold⟩

lemma Accounts.live_eq {r : PageStore} {o o' : Root} {ids lost : List ℕ} (h : Accounts p o ids lost q o')
    (he : r.pageCount = q.pageCount ∧ r.freeList = q.freeList) : Accounts p o ids lost r o' := by
  intro id hlive
  obtain ⟨h1,h2,h3⟩ := hlive
  exact h id ⟨h1,he.1 ▸ h2,he.2 ▸ h3⟩

end Accounts
end Plomvix.KV
