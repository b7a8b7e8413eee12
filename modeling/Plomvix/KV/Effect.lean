import Plomvix.KV.Outcome

/-! The effect of one `Set` or `Delete` on the contents, from the state before it and the
pager's faults. -/
namespace Plomvix.KV
open Lib Pager BPlus

section Set
variable {s : Store} {k : Key} {v : Bytes} {o : Root}

def Arrives (s : Store) (k : Key) (v : Bytes) : Prop :=
  s.Clear .read (setFootprint s k).reads ∧
    (s.tick .alloc (s.tried (overflowCount v))).Clear .alloc (setFootprint s k).nodes

instance : Decidable (Arrives s k v) := by unfold Arrives; infer_instance

section Tree
variable {H : ℕ} {t : Tree Key Slot H} {c : Ctx Key Slot 0 H} {l : Leaf Key Slot} {q : PageStore}
  {ids : List ℕ} {n : ℕ}

lemma Extends.newPages {p : PageStore} (hx : Extends p q ids) (ht : Rooted p t) : NewPages q t ids where
  nodup := hx.nodup
  fresh id hid := by
    obtain ⟨h1,h2,h3⟩ := hx.fresh id hid
    exact ⟨fun hm => h1 (ht.live id hm).1,h2,h3.ne'⟩

lemma Extends.room {p : PageStore} (hx : Extends p q ids) (ht : Rooted p t) (hl : Located t k c l)
    (hr : p.pageCount ≤ 2^49) (hn : ids.length ≤ 4118) : q.pageCount+(c.depth+2) ≤ maxPages := by
  have h1 := hx.grow
  have h2 := ht.height_lt
  rw [← hl.depth] at h2
  simp only [maxPages]
  omega

def atLeaf (s : Store) (n : ℕ) (q : PageStore) (H : ℕ) : Store := (s.after .alloc n q).tick .read (H+1)

lemma quiet_atLeaf (hx : Extends s.pages q ids) (n H : ℕ) : Quiet s (atLeaf s n q H) :=
  (quiet_alloc hx n).trans (quiet_read (s := s.after .alloc n q) hx.sound (H+1))

lemma atLeaf_clear (m : ℕ) : (atLeaf s n q H).Clear .alloc m ↔ (s.tick .alloc n).Clear .alloc m :=
  Store.clear_tick_ne (by decide)

variable (hs : Shows s.pages s.rootPageID (some ⟨H,t⟩)) (ho : s.Opened) (hr : s.Roomy)
  (hk : k.length ≤ maxKeySize) (hv : v.length ≤ maxValSizeEnterprise)
  (hd : descend (.upper k) H t .root = (c,l)) {b : Bytes}
  (hp : Ends (pack v) s (some (ids,b)) (s.after .alloc n q)) (hx : Extends s.pages q ids)
  (hlen : ids.length ≤ 4118) (hread : s.Clear .read (H+1))
include hs ho hk hv hd hp hx hread

lemma set_atLeaf : Located t k c l ∧ Rooted s.pages t ∧ LeafEntries (flatten l.entries) ∧
    Shows (atLeaf s n q H).pages (atLeaf s n q H).rootPageID (some ⟨H,t⟩) ∧
    set k v s = storeInLeaf (pathEntries c l.id) l.id ((flatten l.entries).map Prod.fst)
      ((flatten l.entries).map (fun e => e.2.packed)) (nextOf c) k ids b (atLeaf s n q H) := by
  have hl := located_of_descend hd
  have ht : Rooted s.pages t := hs.tree _ rfl
  exact ⟨hl,ht,ht.leafEntries hl,hs.extend hx,
    set_tree_ok hk hv ho hp hs (quiet_alloc hx n) hd ((Store.clear_after_ne (by decide)).mpr hread)⟩

include hr hlen

theorem tree_prepared {e : Slot} (hi : ids = e.pages) (hb : b = e.packed)
    (hnode : (s.tick .alloc n).Clear .alloc (setFootprint s k).nodes) :
    ∃ s₁ o', Prepared (set k v) s s₁ (ids.length+(setFootprint s k).pages) o' ∧
      o'.contents = c.entriesL++Assoc.put k e (flatten l.entries)++c.entriesR ∧
      s₁.pages.pageCount ≤ s.pages.pageCount+ids.length+(setFootprint s k).nodes ∧
      (Root.Snug k (some ⟨H,t⟩) →
        Accounts s.pages (some ⟨H,t⟩) [] (overflowPages l.entries) s₁.pages o') := by
  subst hi hb
  obtain ⟨hl,ht,hle,hs',hrun⟩ := set_atLeaf hs ho hk hv hd hp hx hread
  have hn : NewPages (atLeaf s n q H).pages t e.pages := hx.newPages ht
  have hgrow := hx.grow
  rw [setFootprint_some hs hd] at hnode ⊢
  split
  · rename_i hfit
    refine ⟨_,_,(prepared_edit hs' hl hk hn hfit _).quiet_then (quiet_atLeaf hx n H) hrun,?_,hgrow,
      fun _ => Accounts.after ?_ hx⟩
    · change entries H (c.plug _) = _
      rw [Ctx.entries_plug]
      simp [entries]
    · rw [← overflowPages_put k e l.entries ((sorted_flatten _).mp hle.sorted)]
      exact accounts_plug q hl _
  · rename_i hfit
    obtain ⟨hnot,hfull⟩ := not_or.mp hfit
    rw [if_neg hfit] at hnode
    obtain ⟨s₁,o',hpr,hc,hg,hacc⟩ := prepared_split hs' hl hk hn hnot (not_lt.mp hfull)
      (hx.room ht hl hr hlen) ((atLeaf_clear _).mpr (by rw [hl.depth]; exact hnode))
    rw [Nat.add_assoc] at hpr
    refine ⟨s₁,some o',hpr.quiet_then (quiet_atLeaf hx n H) hrun,hc,?_,fun hsnug =>
      (hacc ?_).after hx⟩
    · rw [hl.depth] at hg
      exact hg.trans (Nat.add_le_add_right hgrow _)
    · rw [Root.Snug,leafAt_some hd,pathAt_some hd] at hsnug
      exact (hsnug.resolve_left hnot).resolve_left hfull

/-- Overflow pages without a packed value: the transaction panics. -/
theorem tree_crashes (hi : ids≠[]) (hb : b = [])
    (hnode : (s.tick .alloc n).Clear .alloc (setFootprint s k).nodes) :
    ∃ s₁, Crashes (set k v) s s₁ := by
  subst hb
  obtain ⟨hl,ht,hle,hs',hrun⟩ := set_atLeaf hs ho hk hv hd hp hx hread
  rw [setFootprint_some hs hd] at hnode
  split at hnode
  · rename_i hfit
    exact ⟨_,(crashes_edit hs'.sound hle hk hi hfit (nextOf_lt hs.sound ht hl) _).quiet_then
      (quiet_atLeaf hx n H) hrun⟩
  · rename_i hfit
    obtain ⟨hnot,hfull⟩ := not_or.mp hfit
    obtain ⟨s₁,hcr⟩ := crashes_split hs'.sound hle hk hi hnot (not_lt.mp hfull)
      (hx.room ht hl hr hlen) ((atLeaf_clear _).mpr (by rw [hl.depth]; exact hnode)) (nextOf c)
    exact ⟨s₁,hcr.quiet_then (quiet_atLeaf hx n H) hrun⟩

/-- A value too long to pack: an error before the transaction, or one inside it. -/
theorem tree_oversize (hb : maxValSizeEnterprise < b.length) (hpos : ids.length > 0) {a : ℕ}
    (hbv : b = beBytes 8 a++v) (hnode : (s.tick .alloc n).Clear .alloc (setFootprint s k).nodes) :
    if (setFootprint s k).late then ∃ s₁, Doomed (set k v) s s₁ else Undone (set k v) s (some ⟨H,t⟩) := by
  obtain ⟨hl,ht,hle,hs',hrun⟩ := set_atLeaf hs ho hk hv hd hp hx hread
  rw [setFootprint_some hs hd] at hnode ⊢
  by_cases hfit : k ∈ l.entries.map Prod.fst ∨ l.entries.length < maxLeafKeys
  · rw [if_pos hfit]
    obtain ⟨e,he⟩ := oversize_edit (s := atLeaf s n q H) hle hb hfit (nextOf c) (pathEntries c l.id) ids
    exact undone_of_ends hs ⟨e,hrun.trans he⟩ (quiet_atLeaf hx n H)
  · rw [if_neg hfit] at hnode ⊢
    obtain ⟨hnot,hfull⟩ := not_or.mp hfit
    obtain ⟨s₁,hdm⟩ := doomed_split (c := c) hs'.sound hle
      (hx.keep l.id (ht.live l.id (leaf_mem_pagesOf hl.mem_leaves)).1).1 hb hpos hbv
      (fun id hid => (hx.fresh id hid).2.1) hnot (not_lt.mp hfull) (hx.room ht hl hr hlen)
      ((atLeaf_clear _).mpr (by rw [hl.depth]; exact hnode)) (nextOf c)
    exact ⟨s₁,hdm.quiet_then (quiet_atLeaf hx n H) hrun⟩

theorem tree_node_fault (hnode : ¬(s.tick .alloc n).Clear .alloc (setFootprint s k).nodes) :
    Undone (set k v) s (some ⟨H,t⟩) := by
  obtain ⟨hl,ht,hle,hs',hrun⟩ := set_atLeaf hs ho hk hv hd hp hx hread
  rw [setFootprint_some hs hd] at hnode
  split at hnode
  · exact absurd Store.clear_zero hnode
  · rename_i hfit
    obtain ⟨hnot,hfull⟩ := not_or.mp hfit
    have he := storeInLeaf_split (k := k) (b := b) ids (pathEntries c l.id) l.id (nextOf c)
      (sorted_packedEntries.mpr hle.sorted)
      (fun x hx he => hnot (by
        rw [← flatten_keys,← packedEntries_keys]
        exact exists_key_iff.mp ⟨x,hx,he⟩)) (by simpa using not_lt.mp hfull) rfl rfl
    rw [packedEntries_keys,packedEntries_vals,pathEntries_length] at he
    obtain ⟨s',⟨e,hend⟩,hq⟩ := split_alloc_fault hs'.sound (hx.room ht hl hr hlen)
      (mt (atLeaf_clear _).mp (by rw [hl.depth]; exact hnode)) _
    exact undone_of_ends hs ⟨e,(hrun.trans (congrFun he _)).trans hend⟩ ((quiet_atLeaf hx n H).trans hq)

end Tree

lemma shows_none_iff (hs : Shows s.pages s.rootPageID o) : o = none ↔ s.rootPageID = rootSentinel := by
  cases o with
  | none => exact ⟨fun _ => hs.root_eq,fun _ => rfl⟩
  | some x =>
    have hroot : s.rootPageID = rootId x.1 x.2 := hs.root_eq
    rw [hroot]
    exact ⟨fun h => (nomatch h),fun h => absurd h ((hs.tree x rfl).root_ne hs.sound)⟩

variable (hs : Shows s.pages s.rootPageID o) (ho : s.Opened) (hr : s.Roomy) (hk : k.length ≤ maxKeySize)
  (hv : v.length ≤ maxValSizeEnterprise)

lemma Extends.room_one {p q : PageStore} {ids : List ℕ} (hx : Extends p q ids) (hr : p.pageCount ≤ 2^49)
    (hn : ids.length ≤ 4118) : q.pageCount < maxPages := by
  have h := hx.grow
  simp only [maxPages]
  omega

include hs ho hr hk hv

theorem set_undone (ha : ¬Arrives s k v) : Undone (set k v) s o := by
  obtain ⟨ids,q,hp,hlen,hx,hle⟩ := pack_run hs.sound hr hv
  cases o with
  | none =>
    rw [Arrives,setFootprint_none hs,not_and_or] at ha
    have hf : (s.after .alloc (s.tried (overflowCount v)) q).faults .alloc
        ((s.after .alloc (s.tried (overflowCount v)) q).seen .alloc) = true := by
      by_contra hf
      have hc := ha.resolve_left (not_not.mpr Store.clear_zero)
      exact hc (Store.clear_one.mpr (Bool.eq_false_iff.mpr hf))
    obtain ⟨s',⟨e,he⟩,hq⟩ := storeFirst_fault ids hx.sound hf k v _
    exact undone_of_ends hs ⟨e,(set_first hk hv ho hp hs).trans he⟩ ((quiet_alloc hx _).trans hq)
  | some x =>
    obtain ⟨H,t⟩ := x
    obtain ⟨c,l,hd,-⟩ := exists_located t k
    by_cases hread : s.Clear .read (H+1)
    · refine tree_node_fault hs ho hr hk hv hd hp hx hle hread fun hn => ha ⟨?_,hn⟩
      rw [setFootprint_some hs hd]
      split <;> exact hread
    · exact set_tree_read_fault hk hv ho hp hs (quiet_alloc hx _)
        (mt (Store.clear_after_ne (by decide)).mp hread)

variable (ha : Arrives s k v)
include ha

omit ho hr hk hv in
lemma arrives_none (h : o = none) :
    (s.tick .alloc (s.tried (overflowCount v))).faults .alloc
      ((s.tick .alloc (s.tried (overflowCount v))).seen .alloc) = false := by
  subst h
  have hn := ha.2
  rw [setFootprint_none hs] at hn
  exact Store.clear_one.mp hn

omit ho hr hk hv in
lemma arrives_some {H : ℕ} {t : Tree Key Slot H} (h : o = some ⟨H,t⟩) : s.Clear .read (H+1) := by
  subst h
  obtain ⟨c,l,hd,-⟩ := exists_located t k
  have hread := ha.1
  rw [setFootprint_some hs hd] at hread
  split at hread <;> exact hread

section Complete
variable (hc : s.Clear .alloc (overflowCount v)) (hfit : v.length+8 ≤ maxValSizeEnterprise)
include hc hfit

theorem set_prepared_first (hn : o = none) :
    ∃ s₁ a e, e.value = v ∧
      Prepared (set k v) s s₁ (overflowCount v+2) (some ⟨0,.leaf ⟨a,[(k,e)]⟩⟩) ∧
      s₁.pages.pageCount ≤ s.pages.pageCount+overflowCount v+1 ∧
      Accounts s.pages none [] [] s₁.pages (some ⟨0,.leaf ⟨a,[(k,e)]⟩⟩) := by
  subst hn
  obtain ⟨ids,q,hp,hlen,hx,hle⟩ := pack_run hs.sound hr hv
  rw [Store.granted_eq_iff.mpr hc] at hlen
  rw [if_pos hc] at hp
  obtain ⟨e,hval,hpages,hpacked⟩ := exists_slot hfit hlen
  rw [← hpacked] at hp
  have hst : ∀ f : ℕ → Bytes, (∀ w ∈ chainWrites ids v, f w.1 = w.2) → e.Stored f := by
    intro f hf
    apply e.stored_of_writes
    · exact fun id hid => hx.sound.live_lt_word (hx.fresh id (hpages ▸ hid)).2.1
    · rw [Slot.writes,hval,hpages]
      exact hf
  obtain ⟨s₁,a,hpr,hy⟩ := prepared_first (s := s.after .alloc (s.tried (overflowCount v)) q) hx hk
    (hx.room_one hr hle) (arrives_none hs ha rfl) (hpages ▸ List.Sublist.refl _) hst
  have hrun := set_first hk hv ho hp hs
  rw [← hlen]
  refine ⟨s₁,a,e,hval,hpr.quiet_then (quiet_alloc hx _) hrun,
    hy.grow.trans (Nat.add_le_add_right hx.grow 1),fun id hlive => ?_⟩
  refine ((hx.trans hy).cover id hlive).symm.imp (fun hm => ?_) fun hold => ⟨hold,?_,fun hm => hm⟩
  · have hm' : id ∈ a::e.pages := by simpa [hpages,or_comm] using hm
    simpa [Root.pages,pagesOf,BPlus.ids,overflowPages,entries] using hm'
  · exact List.not_mem_nil

theorem set_prepared :
    ∃ s₁ o' e, e.value = v ∧
      Prepared (set k v) s s₁ (overflowCount v+(setFootprint s k).pages) o' ∧
      o'.contents = o.withLeaf k (Assoc.put k e (flatten (o.leafAt k))) ∧
      s₁.pages.pageCount ≤ s.pages.pageCount+overflowCount v+(setFootprint s k).nodes ∧
      (o.Snug k → Accounts s.pages o [] (overflowPages (o.leafAt k)) s₁.pages o') := by
  cases hn : o with
  | none =>
    obtain ⟨s₁,a,e,hval,hpr,hg,hacc⟩ := set_prepared_first hs ho hr hk hv ha hc hfit hn
    rw [hn] at hs
    rw [setFootprint_none hs]
    exact ⟨s₁,some ⟨0,.leaf ⟨a,[(k,e)]⟩⟩,e,hval,hpr,rfl,hg,fun _ => hacc⟩
  | some x =>
    obtain ⟨ids,q,hp,hlen,hx,hle⟩ := pack_run hs.sound hr hv
    rw [Store.granted_eq_iff.mpr hc] at hlen
    rw [if_pos hc] at hp
    obtain ⟨e,hval,hpages,hpacked⟩ := exists_slot hfit hlen
    subst hn
    obtain ⟨H,t⟩ := x
    obtain ⟨c,l,hd,-⟩ := exists_located t k
    obtain ⟨s₁,o',hpr,hcont,hg,hacc⟩ := tree_prepared hs ho hr hk hv hd hp hx hle (arrives_some hs ha rfl)
      hpages.symm hpacked.symm ha.2
    rw [hlen] at hpr hg
    refine ⟨s₁,o',e,hval,hpr,?_,hg,?_⟩
    · rw [leafAt_some hd,withLeaf_some hd]
      exact hcont
    · rw [leafAt_some hd]
      exact hacc

end Complete

/-- No overflow page is granted, or only some to the first `Set`: an empty value is stored. -/
theorem set_truncated (hc : ¬s.Clear .alloc (overflowCount v))
    (hg : s.rootPageID = rootSentinel ∨ s.granted (overflowCount v) = 0) :
    ∃ s₁ o' e, e.value = [] ∧
      Prepared (set k v) s s₁ (s.granted (overflowCount v)+(setFootprint s k).pages) o' ∧
      o'.contents = o.withLeaf k (Assoc.put k e (flatten (o.leafAt k))) := by
  obtain ⟨ids,q,hp,hlen,hx,hle⟩ := pack_run hs.sound hr hv
  rw [if_neg hc] at hp
  have hempty := shows_none_iff hs
  rcases o with _ | ⟨H,t⟩
  · obtain ⟨s₁,a,hpr,-⟩ := prepared_first (s := s.after .alloc (s.tried (overflowCount v)) q)
      (e := .inline [] (Nat.zero_le _)) (v := v) hx hk (hx.room_one hr hle) (arrives_none hs ha rfl)
      (List.nil_sublist _) fun f hf => trivial
    refine ⟨s₁,some ⟨0,.leaf ⟨a,[(k,.inline [] (Nat.zero_le _))]⟩⟩,.inline [] (Nat.zero_le _),rfl,?_,rfl⟩
    rw [setFootprint_none hs,← hlen]
    have hrun := set_first hk hv ho hp hs
    exact hpr.quiet_then (quiet_alloc hx _) hrun
  · obtain ⟨c,l,hd,-⟩ := exists_located t k
    have hg0 : s.granted (overflowCount v) = 0 := hg.resolve_left fun h => nomatch hempty.mpr h
    have hids : ids = [] := List.length_eq_zero_iff.mp (hlen.trans hg0)
    obtain ⟨s₁,o',hpr,hcont,-⟩ :=
      tree_prepared (e := .inline [] (Nat.zero_le _)) hs ho hr hk hv hd hp hx hle
      (arrives_some hs ha rfl) hids rfl ha.2
    refine ⟨s₁,o',.inline [] (Nat.zero_le _),rfl,?_,?_⟩
    · rw [← hlen]
      exact hpr
    · rw [leafAt_some hd,withLeaf_some hd]
      exact hcont

theorem set_crashes (hc : ¬s.Clear .alloc (overflowCount v)) (hne : s.rootPageID≠rootSentinel)
    (hg : s.granted (overflowCount v)≠0) : ∃ s₁, Crashes (set k v) s s₁ := by
  obtain ⟨ids,q,hp,hlen,hx,hle⟩ := pack_run hs.sound hr hv
  rw [if_neg hc] at hp
  rcases o with _ | ⟨H,t⟩
  · exact absurd hs.root_eq hne
  · obtain ⟨c,l,hd,-⟩ := exists_located t k
    have hids : ids≠[] := fun h => hg (hlen.symm.trans (by rw [h]; rfl))
    exact tree_crashes hs ho hr hk hv hd hp hx hle (arrives_some hs ha rfl) hids rfl ha.2

theorem set_oversize (hc : s.Clear .alloc (overflowCount v)) (hbig : maxValSizeEnterprise < v.length+8) :
    if (setFootprint s k).late then ∃ s₁, Doomed (set k v) s s₁ else Undone (set k v) s o := by
  obtain ⟨ids,q,hp,hlen,hx,hle⟩ := pack_run hs.sound hr hv
  rw [Store.granted_eq_iff.mpr hc] at hlen
  rw [if_pos hc] at hp
  have hb := packedWith_too_large hbig ids
  have hlong : v.length > maxValSize := by
    simp only [maxValSizeEnterprise,maxValSize] at hbig ⊢
    omega
  rcases o with _ | ⟨H,t⟩
  · have hf := arrives_none hs ha rfl
    obtain ⟨s₁,hdm⟩ := doomed_first (s := s.after .alloc (s.tried (overflowCount v)) q) (k := k) (v := v)
      (b := packedWith v ids) hx (hx.room_one hr hle) hf hb
    rw [setFootprint_none hs]
    have hrun := set_first hk hv ho hp hs
    exact ⟨s₁,hdm.quiet_then (quiet_alloc hx _) hrun⟩
  · obtain ⟨c,l,hd,-⟩ := exists_located t k
    have hpos : ids.length > 0 := by
      rw [hlen,overflowCount,if_pos hlong]
      exact numOverflow_pos hlong
    exact tree_oversize hs ho hr hk hv hd hp hx hle (arrives_some hs ha rfl) hb hpos (if_pos hlong) ha.2

end Set
section Delete
variable {s : Store} {k : Key} {o : Root} (hs : Shows s.pages s.rootPageID o) (ho : s.Opened)
include hs ho

lemma delete_none (hn : o = none) (k : Key) : delete k s = (.ok (),s) := by
  have hroot := (shows_none_iff hs).mp hn
  rw [delete,Prog.bind_ok (checkOpen_ok ho),Prog.bind_ok (Prog.get_run s),if_pos hroot]
  rfl

lemma delete_some {H : ℕ} {t : Tree Key Slot H} (hn : o = some ⟨H,t⟩) (k : Key) :
    delete k s = deleteFromTree (s.pages.pageCount+1) (rootId H t) k s := by
  subst hn
  have ht : Rooted s.pages t := hs.tree _ rfl
  have hroot : s.rootPageID = rootId H t := hs.root_eq
  rw [delete,Prog.bind_ok (checkOpen_ok ho),Prog.bind_ok (Prog.get_run s),hroot,
    if_neg (ht.root_ne hs.sound),Prog.bind_ok (fuel_run s)]

lemma delete_atLeaf {H : ℕ} {t : Tree Key Slot H} (hn : o = some ⟨H,t⟩) {c : Ctx Key Slot 0 H}
    {l : Leaf Key Slot} (hd : descend (.upper k) H t .root = (c,l)) (hread : s.Clear .read (H+1)) :
    delete k s = deleteFromLeaf k l.id (s.pages.body l.id) (s.tick .read (H+1)) := by
  rw [delete_some hs ho hn]
  subst hn
  have ht : Rooted s.pages t := hs.tree _ rfl
  refine (walk_ok (Route.upper k) (fun _ _ h => upperBoundIdx_eq h k) (ht.readable hs.sound) .root
    ht.height_lt hread hd).trans ?_
  rw [view_idle hs.sound.idle]

omit ho in
lemma reads_some {H : ℕ} {t : Tree Key Slot H} (hn : o = some ⟨H,t⟩) (k : Key) :
    (setFootprint s k).reads = H+1 := by
  subst hn
  obtain ⟨c,l,hd,-⟩ := exists_located t k
  rw [setFootprint_some hs hd]
  split <;> rfl

theorem delete_undone (hread : ¬s.Clear .read (setFootprint s k).reads) : Undone (delete k) s o := by
  rcases o with _ | ⟨H,t⟩
  · rw [setFootprint_none hs] at hread
    exact absurd Store.clear_zero hread
  · rw [reads_some hs rfl] at hread
    have hdel := delete_some hs ho rfl k
    have ht : Rooted s.pages t := hs.tree _ rfl
    obtain ⟨e,m,hw⟩ : ∃ e m, deleteFromTree (s.pages.pageCount+1) (rootId H t) k s =
        (.error (.err e),s.tick .read m) :=
      walk_fault (Route.upper k) (fun _ _ h => upperBoundIdx_eq h k) (ht.readable hs.sound) .root
        ht.height_lt hread
    have hx : Ends (delete k) s none (s.tick .read m) := ⟨e,hdel.trans hw⟩
    exact undone_of_ends hs hx (quiet_read hs.sound m)

variable (hread : s.Clear .read (setFootprint s k).reads)
include hread

theorem delete_absent (hk : k ∉ (o.leafAt k).map Prod.fst) :
    ∃ m, delete k s = (.ok (),s.tick .read m) := by
  rcases o with _ | ⟨H,t⟩
  · exact ⟨0,by rw [Store.tick_zero]; exact delete_none hs ho rfl k⟩
  · obtain ⟨c,l,hd,hl⟩ := exists_located t k
    rw [reads_some hs rfl] at hread
    have hrun := delete_atLeaf hs ho rfl hd hread
    rw [leafAt_some hd] at hk
    have hdec := decodeLeafNode_flatten (leafRun_located (hs.tree _ rfl) hl).2.1
    rw [← packedEntries_keys,← packedEntries_vals] at hdec
    have hmiss := deleteFromLeaf_miss (k := k) l.id hdec fun x hx he => hk (by
      rw [← flatten_keys,← packedEntries_keys]
      exact exists_key_iff.mp ⟨x,hx,he⟩)
    refine ⟨H+1,hrun.trans ?_⟩
    rw [hmiss]
    rfl

theorem delete_prepared (hk : k ∈ (o.leafAt k).map Prod.fst) :
    ∃ s₁ o', Prepared (delete k) s s₁ 1 o' ∧
      o'.contents = o.withLeaf k (Assoc.erase k (flatten (o.leafAt k))) ∧
      Accounts s.pages o [] (overflowPages (o.leafAt k)) s₁.pages o' := by
  rcases o with _ | ⟨H,t⟩
  · simp [Root.leafAt] at hk
  · obtain ⟨c,l,hd,hl⟩ := exists_located t k
    rw [reads_some hs rfl] at hread
    have hrun := delete_atLeaf hs ho rfl hd hread
    rw [leafAt_some hd] at hk
    refine ⟨_,_,(prepared_delete (s := s.tick .read (H+1)) hs hl hk).quiet_then (quiet_read hs.sound (H+1))
      hrun,?_,?_⟩
    · rw [leafAt_some hd,withLeaf_some hd]
      change entries H (c.plug _) = _
      rw [Ctx.entries_plug]
      simp [entries]
    · rw [leafAt_some hd]
      exact (accounts_plug s.pages hl _).none

end Delete
end Plomvix.KV
