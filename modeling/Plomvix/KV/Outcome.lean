import Plomvix.KV.Prepare

/-! How `Set` and `Delete` end, for every fault pattern: what they come to before their
transaction, and the transaction itself. -/
namespace Plomvix.KV
open Lib Pager BPlus

section Pack
variable {s : Store} {v : Bytes}

def overflowCount (v : Bytes) : ℕ := if v.length > maxValSize then numOverflow v else 0

/-- The packed form of a value whose overflow pages were all granted. -/
def packedWith (v : Bytes) (ids : List ℕ) : Bytes :=
  if v.length > maxValSize then beBytes 8 (ids.headD 0)++v else v

lemma overflowCount_le (h : v.length ≤ maxValSizeEnterprise) : overflowCount v ≤ 4118 := by
  unfold overflowCount numOverflow
  simp only [maxValSizeEnterprise,overflowChunkSize] at h ⊢
  split <;> omega

lemma granted_le (s : Store) (n : ℕ) : s.granted n ≤ n := by
  unfold Store.granted
  generalize s.seen .alloc = i
  induction n generalizing i with
  | zero => exact le_refl _
  | succ n ih =>
    rw [granted]
    split
    · exact Nat.zero_le _
    · exact Nat.succ_le_succ (ih (i+1))

lemma pack_run (hs : Sound s.pages) (hr : s.pages.pageCount ≤ 2^49)
    (hv : v.length ≤ maxValSizeEnterprise) :
    ∃ ids q, Ends (pack v) s (some (ids,if s.Clear .alloc (overflowCount v) then packedWith v ids else []))
        (s.after .alloc (s.tried (overflowCount v)) q) ∧
      ids.length = s.granted (overflowCount v) ∧ Extends s.pages q ids ∧ ids.length ≤ 4118 := by
  have hc := overflowCount_le hv
  have hle := (granted_le s (overflowCount v)).trans hc
  unfold pack packedWith
  by_cases hl : v.length > maxValSize
  · have hn : overflowCount v = numOverflow v := if_pos hl
    rw [hn] at hc hle ⊢
    obtain ⟨ids,q,hrun,hlen,hx⟩ :=
      allocOverflow_run (n := numOverflow v) hs (by simp only [maxPages]; omega)
    refine ⟨ids,q,?_,hlen,hx,hlen ▸ hle⟩
    rw [if_pos hl,if_pos hl,prepareOverflow]
    refine hrun.bind ?_
    by_cases hc : s.Clear .alloc (numOverflow v)
    · simp only [decide_eq_true hc,if_pos hc,if_true]
      exact ends_pure ..
    · simp only [decide_eq_false hc,if_neg hc,Bool.false_eq_true,if_false]
      exact ends_pure ..
  · have hn : overflowCount v = 0 := if_neg hl
    refine ⟨[],s.pages,?_,?_,.refl hs,Nat.zero_le _⟩
    · rw [hn,if_pos Store.clear_zero,if_neg hl,if_neg hl,Store.tried,tried,after_zero]
      exact ends_pure ..
    · rw [hn]
      rfl

lemma exists_slot (h : v.length+8 ≤ maxValSizeEnterprise) {ids : List ℕ}
    (hids : ids.length = overflowCount v) :
    ∃ e : Slot, e.value = v ∧ e.pages = ids ∧ e.packed = packedWith v ids := by
  unfold packedWith overflowCount at *
  by_cases hl : v.length > maxValSize
  · rw [if_pos hl] at hids ⊢
    exact ⟨.overflow v ids hl h hids,rfl,rfl,rfl⟩
  · rw [if_neg hl] at hids ⊢
    obtain rfl := List.length_eq_zero_iff.mp hids
    exact ⟨.inline v (not_lt.mp hl),rfl,rfl,rfl⟩

lemma packedWith_too_large (h : maxValSizeEnterprise < v.length+8) (ids : List ℕ) :
    maxValSizeEnterprise < (packedWith v ids).length := by
  have hl : v.length > maxValSize := by
    simp only [maxValSizeEnterprise,maxValSize] at h ⊢
    omega
  rw [packedWith,if_pos hl,List.length_append,beBytes_length]
  omega

end Pack

section First
variable {s : Store} {p : PageStore} {k : Key} {e : Slot} {b : ℕ} {ids : List ℕ}

theorem shows_first (pre : List (ℕ × Bytes)) (hs : Sound p) (hk : k.length ≤ maxKeySize)
    (hnd : (ids++[b]).Nodup)
    (hlive : ∀ id ∈ ids++[b], p.Live id ∧ metaPageID < id) (hsub : e.pages.Sublist ids)
    (hpre : pre.map Prod.fst = ids) (hlen : ∀ w ∈ pre, w.2.length = dataPageBodySize)
    (hst : ∀ f : ℕ → Bytes, (∀ w ∈ pre, f w.1 = w.2) → e.Stored f) :
    LeafEntries [(k,e)] ∧
      Writable p (pre++[(b,leafBytes [(k,e)] rootSentinel),(metaPageID,encodeMetaPage b)]) ∧
      Shows (written p (pre++[(b,leafBytes [(k,e)] rootSentinel),(metaPageID,encodeMetaPage b)])) b
        (some ⟨0,.leaf ⟨b,[(k,e)]⟩⟩) := by
  have hle : LeafEntries [(k,e)] := ⟨by simp [maxLeafKeys],by simp [Assoc.Sorted],by simpa using hk⟩
  obtain ⟨hbl,hbm⟩ := hlive b (by simp)
  obtain ⟨hidn,-,hidb⟩ := List.nodup_append.mp hnd
  have hroot : rootSentinel < 256^8 := by decide
  have hwnd : ((pre++[(b,leafBytes [(k,e)] rootSentinel),(metaPageID,encodeMetaPage b)]).map
      Prod.fst).Nodup := by
    rw [List.map_append,hpre]
    refine List.nodup_append.mpr ⟨hidn,by simp [hbm.ne'],fun x hx y hy he => ?_⟩
    simp only [List.map_cons,List.map_nil,List.mem_cons,List.not_mem_nil,or_false] at hy
    cases hy with
    | inl h => exact hidb x hx b (by simp) (he.trans h)
    | inr h => exact (hlive x (by simp [hx])).2.ne' (he.trans h)
  have hleaf : patch p.body (pre++[(b,leafBytes [(k,e)] rootSentinel),(metaPageID,encodeMetaPage b)]) b =
      leafBytes [(k,e)] rootSentinel := patch_mem hwnd (by simp)
  have hmeta : patch p.body (pre++[(b,leafBytes [(k,e)] rootSentinel),(metaPageID,encodeMetaPage b)])
      metaPageID = encodeMetaPage b := patch_mem hwnd (by simp)
  have hpages : pagesOf (.leaf ⟨b,[(k,e)]⟩ : Tree Key Slot 0) = b::e.pages := by
    simp [pagesOf,BPlus.ids,entries]
  refine ⟨hle,fun w hw => ?_,hs.written _,?_,rfl,fun x hx => ?_⟩
  · simp only [List.mem_append,List.mem_cons,List.not_mem_nil,or_false] at hw
    obtain h | rfl | rfl := hw
    · refine ⟨(hlive w.1 (List.mem_append_left _ ?_)).1,hlen w h⟩
      rw [← hpre]
      exact List.mem_map_of_mem h
    · exact ⟨hbl,leafBytes_length hle hroot⟩
    · exact ⟨hs.live_meta,encodeMetaPage_length b⟩
  · change decodeMetaPage (patch p.body _ metaPageID) = _
    rw [hmeta]
    exact decodeMetaPage_encode (hs.live_lt_word hbl)
  · obtain rfl := Option.mem_some.mp hx
    have hitem : ∀ i ∈ items 0 (.leaf ⟨b,[(k,e)]⟩ : Tree Key Slot 0), i.val.length ≤ maxKeySize := by
      intro i hi
      rw [List.mem_singleton.mp hi]
      exact hk
    refine ⟨⟨by simp,?_,?_⟩,by simp [Ordered],hitem,by simp [maxLeafKeys],by simp,?_,?_⟩
    · refine ⟨?_,trivial⟩
      change decodeLeafNodeRefs (patch p.body _ b) = _
      rw [hleaf]
      exact (hle.encode hroot).2
    · intro x hx
      have hxe : x = (k,e) := by simpa [entries] using hx
      rw [hxe]
      exact hst _ fun w hw => patch_mem hwnd (List.mem_append_left _ hw)
    · rw [hpages]
      exact List.nodup_cons.mpr ⟨fun hm => hidb b (hsub.subset hm) b (by simp) rfl,hidn.sublist hsub⟩
    · intro id hid
      rw [hpages] at hid
      have hm : id ∈ ids++[b] := by
        cases List.mem_cons.mp hid with
        | inl h => simp [h]
        | inr h => simp [hsub.subset h]
      exact ⟨(hlive id hm).1,(hlive id hm).2.ne'⟩

lemma setRoot_eq_publish (commit : Cmd Unit) (ids : List ℕ) (v : Bytes) {b : ℕ} (hb : b≠0)
    (leaf : Except Err Bytes) :
    (inTx commit (firstBody ids v b leaf) >>= setRoot) =
      inTx commit (firstBody ids v b leaf) >>= publish := by
  have hp : publish b = setRoot b := if_pos hb
  rw [firstBody_eq,inTx_then,inTx_then,hp]

lemma writes_first {v : Bytes} (h : ∀ id ∈ ids, id < 256^8) :
    Writes (if ids.length > 0 then writeOverflowChain ids v else pure ()) (chainWrites ids v) () := by
  split
  · exact writes_chunks h _
  · rename_i hl
    obtain rfl := List.length_eq_zero_iff.mp (Nat.eq_zero_of_not_pos hl)
    exact writes_pure ()

/-- `setInEmpty` after the value has been packed. -/
def storeFirst (k : Key) (v : Bytes) (ids : List ℕ) (b : Bytes) : Cmd Unit := do
  let leafID ← wrap "kv: allocate leaf" allocatePage
  inTx (wrap "kv: commit" commitTx) (firstBody ids v leafID (encodeLeafNode [k] [b] rootSentinel)) >>=
    setRoot

lemma storeFirst_run {p₀ : PageStore} (hx : Extends p₀ s.pages ids)
    (hroom : s.pages.pageCount < maxPages) (hf : s.faults .alloc (s.seen .alloc) = false) (k : Key)
    (v b : Bytes) :
    ∃ a q, storeFirst k v ids b s = (inTx (wrap "kv: commit" commitTx) (firstBody ids v a
        (encodeLeafNode [k] [b] rootSentinel)) >>= publish) (s.after .alloc 1 q) ∧
      Extends s.pages q [a] ∧ (ids++[a]).Nodup ∧ ∀ id ∈ ids++[a], q.Live id ∧ metaPageID < id := by
  obtain ⟨a,q,ha,hy,-⟩ := allocatePage_ok (n := 0) hx.sound hroom hf
  have hxy := hx.trans hy
  have hrun : wrap "kv: allocate leaf" allocatePage s = (.ok a,s.after .alloc 1 q) := ha.wrap _
  have ha0 : a≠0 := fun h => hy.sound.not_end (hy.fresh a (by simp)).2.1 (.inr h)
  refine ⟨a,q,(Prog.bind_ok hrun).trans ?_,hy,hxy.nodup,fun id hid => (hxy.fresh id hid).2⟩
  rw [setRoot_eq_publish _ _ _ ha0]

lemma storeFirst_fault (ids : List ℕ) (hs : Sound s.pages)
    (hf : s.faults .alloc (s.seen .alloc) = true) (k : Key)
    (v b : Bytes) : ∃ s', Ends (storeFirst k v ids b) s none s' ∧ Quiet s s' :=
  ⟨_,((ends_fault hf).wrap _).bind_none,quiet_alloc (.refl hs) 1⟩

theorem prepared_first {p₀ : PageStore} (hx : Extends p₀ s.pages ids) (hk : k.length ≤ maxKeySize)
    (hroom : s.pages.pageCount < maxPages) (hf : s.faults .alloc (s.seen .alloc) = false) {v : Bytes}
    (hsub : e.pages.Sublist ids)
    (hst : ∀ f : ℕ → Bytes, (∀ w ∈ chainWrites ids v, f w.1 = w.2) → e.Stored f) :
    ∃ s₁ a, Prepared (storeFirst k v ids e.packed) s s₁ (ids.length+2) (some ⟨0,.leaf ⟨a,[(k,e)]⟩⟩) ∧
      Extends s.pages s₁.pages [a] := by
  obtain ⟨a,q,hrun,hy,hnd,hlive⟩ := storeFirst_run hx hroom hf k v e.packed
  have hlt : ∀ id ∈ ids, id < 256^8 := fun id hid => hy.sound.live_lt_word (hlive id (by simp [hid])).1
  obtain ⟨hle,hw,hsh⟩ := shows_first (chainWrites ids v) hy.sound hk hnd hlive hsub
    (chainWrites_ids ids v) (chunkWrites_length hlt) hst
  have ha0 : a≠0 := fun h => hy.sound.not_end (hlive a (by simp)).1 (.inr h)
  refine ⟨s.after .alloc 1 q,a,⟨quiet_alloc hy 1,_,_,_,a,isCommit_wrap _,?_,hw,by simp,hrun,?_⟩,hy⟩
  · have henc : encodeLeafNode [k] [e.packed] rootSentinel = .ok (leafBytes [(k,e)] rootSentinel) :=
      (hle.encode (by decide)).1
    exact (writes_first hlt).bind ((writes_codec henc).bind (((writes_page a _).wrap _).bind
      (((writes_page metaPageID _).wrap _).bind (writes_pure a))))
  · rw [newRootID,if_pos ha0]
    exact hsh

theorem doomed_first {p₀ : PageStore} (hx : Extends p₀ s.pages ids)
    (hroom : s.pages.pageCount < maxPages) (hf : s.faults .alloc (s.seen .alloc) = false) {v b : Bytes}
    (hb : maxValSizeEnterprise < b.length) : ∃ s₁, Doomed (storeFirst k v ids b) s s₁ := by
  obtain ⟨a,q,hrun,hy,-,hlive⟩ := storeFirst_run hx hroom hf k v b
  have hlt : ∀ id ∈ ids, id < 256^8 := fun id hid => hy.sound.live_lt_word (hlive id (by simp [hid])).1
  obtain ⟨err,he⟩ : ∃ err, encodeLeafNode [k] [b] rootSentinel = .error err :=
    encodeLeafNode_too_large rfl ⟨b,by simp,hb⟩
  refine ⟨s.after .alloc 1 q,quiet_alloc hy 1,_,_,_,(writes_first hlt).bind_aborts (aborts_codec he).bind,
    fun w hw => ?_,hrun⟩
  have hw' : w ∈ chainWrites ids v := by simpa using hw
  have hm : w.1 ∈ ids := by
    rw [← chainWrites_ids ids v]
    exact List.mem_map_of_mem hw'
  exact ⟨(hlive w.1 (by simp [hm])).1,chunkWrites_length hlt w hw'⟩

end First

section Stop
variable {x : Cmd Unit} {s s₁ : Store} {o : Root}

/-- The operation comes quietly to a transaction that panics at its first step. -/
def Crashes (x : Cmd Unit) (s s₁ : Store) : Prop :=
  Quiet s s₁ ∧ ∃ (commit : Cmd Unit) (body : Cmd ℕ), (∀ u, body u = (.error .panic,u)) ∧
    x s = (inTx commit body >>= publish) s₁

lemma Crashes.quiet_then {y : Cmd Unit} {s₀ : Store} (h : Crashes x s s₁) (hq : Quiet s₀ s)
    (he : y s₀ = x s) : Crashes y s₀ s₁ := by
  obtain ⟨hq',commit,body,h1,h2⟩ := h
  exact ⟨hq.trans hq',commit,body,h1,he.trans h2⟩

theorem Crashes.panics (h : Crashes x s s₁) (hb : s.faults .begin (s.seen .begin) = false) :
    ∃ s', x s = (.error .panic,s') := by
  obtain ⟨hq,commit,body,hp,he⟩ := h
  obtain ⟨ids,hg⟩ := hq.grown
  have hbegin : wrap "kv: begin tx" beginTx s₁ = (.ok (),begun s₁) :=
    (begin_ok hg.sound.idle ((hq.fault (by decide) (by decide)).trans hb)).wrap _
  have hor : orRollback body (begun s₁) = (.error .panic,begun s₁) := orRollback_stop (hp _) (by simp)
  have hin : inTx commit body s₁ = (.error .panic,begun s₁) :=
    (Prog.bind_ok hbegin).trans (Prog.bind_error hor)
  exact ⟨_,he.trans (Prog.bind_error hin)⟩

theorem Crashes.begin_fault (h : Crashes x s s₁) (hs : Shows s.pages s.rootPageID o)
    (hb : s.faults .begin (s.seen .begin) = true) : Undone x s o := by
  obtain ⟨hq,commit,body,-,he⟩ := h
  exact undone_of_begin hq he hs hb

theorem Doomed.begin_fault (h : Doomed x s s₁) (hs : Shows s.pages s.rootPageID o)
    (hb : s.faults .begin (s.seen .begin) = true) : Undone x s o := by
  obtain ⟨hq,commit,body,ws,-,-,he⟩ := h
  exact undone_of_begin hq he hs hb

theorem Doomed.rolls_back (h : Doomed x s s₁) (hs : Shows s.pages s.rootPageID o)
    (hb : s.faults .begin (s.seen .begin) = false)
    (hr : s.faults .rollback (s.seen .rollback) = false) : Undone x s o := by
  obtain ⟨hq,commit,body,ws,hx,hw,he⟩ := h
  exact undone_of_rollback hq he hb (hx (begun s₁) rfl hw) hs hr

theorem Doomed.rollback_fault (h : Doomed x s s₁) (hb : s.faults .begin (s.seen .begin) = false)
    (hr : s.faults .rollback (s.seen .rollback) = true) : LeavesOpen x s := by
  obtain ⟨hq,commit,body,ws,hx,hw,he⟩ := h
  exact leavesOpen_of_rollback hq he hb (hx (begun s₁) rfl hw) hr

end Stop

section Tree
variable {s s₁ : Store} {H : ℕ} {t : Tree Key Slot H} {k : Key} {c : Ctx Key Slot 0 H}
  {l : Leaf Key Slot} {v b : Bytes} {ids : List ℕ} {o : Root}

lemma findLeaf_ok (hs : Shows s.pages s.rootPageID (some ⟨H,t⟩))
    (hd : descend (.upper k) H t .root = (c,l)) (hr : s.Clear .read (H+1)) :
    findLeaf (s.pages.pageCount+1) s.rootPageID k s =
      (.ok (pathEntries c l.id,l.id,(flatten l.entries).map Prod.fst,
        (flatten l.entries).map (fun e => e.2.packed),nextOf c),s.tick .read (H+1)) := by
  have ht : Rooted s.pages t := hs.tree _ rfl
  have hroot : s.rootPageID = rootId H t := hs.root_eq
  have hdec := decodeLeafNode_flatten (leafRun_located ht (located_of_descend hd)).2.1
  rw [hroot,findLeaf]
  refine (walk_ok (Route.upper k) (fun _ _ h => upperBoundIdx_eq h k) (ht.readable hs.sound) .root
    ht.height_lt hr hd).trans ?_
  rw [view_idle hs.sound.idle]
  exact Prog.bind_ok (codec_ok hdec _)

lemma set_admitted (hk : k.length ≤ maxKeySize) (hv : v.length ≤ maxValSizeEnterprise) (ho : s.Opened) :
    set k v s = (if s.rootPageID = rootSentinel then setInEmpty k v else setInTree k v) s := by
  rw [set,if_neg (not_lt.mpr hk),if_neg (not_lt.mpr hv),Prog.bind_ok (checkOpen_ok ho),
    Prog.bind_ok (Prog.get_run s)]

section Leaf
variable (hs : Sound s.pages) (hle : LeafEntries (flatten l.entries)) (hk : k.length ≤ maxKeySize)

lemma chainBody_panics (hne : ids≠[]) (u : Store) : chainBody ids [] u = (.error .panic,u) := by
  rw [chainBody,if_pos (List.length_pos_iff.mpr hne)]
  rfl

include hs hle hk

theorem crashes_edit (hne : ids≠[]) (hfit : k ∈ l.entries.map Prod.fst ∨ l.entries.length < maxLeafKeys)
    {next : ℕ} (hn : next < 256^8) (path : List PathEntry) :
    Crashes (storeInLeaf path l.id ((flatten l.entries).map Prod.fst)
      ((flatten l.entries).map (fun e => e.2.packed)) next k ids []) s s :=
  ⟨.refl hs,_,_,fun u => Prog.bind_error (chainBody_panics hne u),
    storeInLeaf_edit_run (e := .inline [] (Nat.zero_le _)) hle hk hfit hn path ids s⟩

theorem crashes_split (hne : ids≠[]) (hnot : k ∉ l.entries.map Prod.fst)
    (hfull : maxLeafKeys ≤ l.entries.length) (hroom : s.pages.pageCount+(c.depth+2) ≤ maxPages)
    (hc : s.Clear .alloc (c.depth+2)) (next : ℕ) :
    ∃ s₁, Crashes (storeInLeaf (pathEntries c l.id) l.id ((flatten l.entries).map Prod.fst)
      ((flatten l.entries).map (fun e => e.2.packed)) next k ids []) s s₁ := by
  obtain ⟨as,m,w,bs,b,pool,q,-,-,-,-,-,hx,hrun⟩ := storeInLeaf_split_run hs hle hk hnot hfull hroom hc
    (.inline [] (Nat.zero_le _)) next ids
  exact ⟨_,quiet_alloc hx _,_,_,fun u => Prog.bind_error (chainBody_panics hne u),hrun⟩

omit hs hk in
lemma oversize_edit (hb : maxValSizeEnterprise < b.length)
    (hfit : k ∈ l.entries.map Prod.fst ∨ l.entries.length < maxLeafKeys) (next : ℕ)
    (path : List PathEntry) (ids : List ℕ) :
    Ends (storeInLeaf path l.id ((flatten l.entries).map Prod.fst)
      ((flatten l.entries).map (fun e => e.2.packed)) next k ids b) s none s := by
  have he := storeInLeaf_edit (k := k) ids b path l.id next (sorted_packedEntries.mpr hle.sorted) (by
    rw [exists_key_iff,packedEntries_keys,packedEntries_length]
    simpa using hfit)
  rw [packedEntries_keys,packedEntries_vals] at he
  obtain ⟨err,henc⟩ : ∃ err, encodeLeafNode
      ((Assoc.put k b (packedEntries (flatten l.entries))).map Prod.fst)
      ((Assoc.put k b (packedEntries (flatten l.entries))).map Prod.snd) next = .error err :=
    encodeLeafNode_too_large (by simp)
      ⟨b,List.mem_map_of_mem (f := Prod.snd) (Assoc.mem_put_self k b _),hb⟩
  rw [he]
  exact ⟨err,Prog.bind_error (codec_err henc s)⟩

omit hs hk in
lemma oversize_halves (hb : maxValSizeEnterprise < b.length) (hnot : k ∉ l.entries.map Prod.fst)
    {x : ℕ} (hx : x < 256^8) (next n : ℕ) {kvs : List Entry}
    (hkvs : Assoc.put k b (packedEntries (flatten l.entries)) = kvs) :
    (∃ e, encodeLeafNode ((kvs.take n).map Prod.fst) ((kvs.take n).map Prod.snd) x = .error e) ∨
      (∃ lb, encodeLeafNode ((kvs.take n).map Prod.fst) ((kvs.take n).map Prod.snd) x = .ok lb ∧
        lb.length = dataPageBodySize) ∧
      ∃ e, encodeLeafNode ((kvs.drop n).map Prod.fst) ((kvs.drop n).map Prod.snd) next = .error e := by
  have hne : ∀ x ∈ packedEntries (flatten l.entries), x.1≠k := fun x hx he => hnot (by
    rw [← flatten_keys,← packedEntries_keys]
    exact exists_key_iff.mp ⟨x,hx,he⟩)
  obtain ⟨as,cs,ha,hc,h | ⟨w,h⟩⟩ := Assoc.split_at k (sorted_packedEntries.mpr hle.sorted)
  · rw [h,Assoc.put_new ha hc] at hkvs
    rw [← hkvs]
    by_cases hlen : n ≤ as.length
    · right
      obtain ⟨es,hes,hsub⟩ : ∃ es, as.take n = packedEntries es ∧ es.Sublist (flatten l.entries) := by
        refine ⟨(flatten l.entries).take (min n as.length),?_,List.take_sublist ..⟩
        rw [packedEntries,List.map_take]
        change _ = (packedEntries (flatten l.entries)).take _
        rw [h,List.take_append_of_le_length (min_le_right ..),min_eq_left hlen]
      have hle' := hle.sublist hsub
      refine ⟨⟨leafBytes es x,?_,leafBytes_length hle' hx⟩,encodeLeafNode_too_large (by simp) ⟨b,?_,hb⟩⟩
      · rw [List.take_append_of_le_length hlen,hes,packedEntries_keys,packedEntries_vals]
        exact (hle'.encode hx).1
      · rw [List.drop_append_of_le_length hlen]
        simp
    · left
      refine encodeLeafNode_too_large (by simp) ⟨b,?_,hb⟩
      obtain ⟨m,hm⟩ : ∃ m, n-as.length = m+1 := ⟨n-as.length-1,by omega⟩
      rw [List.take_append,hm]
      simp
  · exact absurd rfl (hne (k,w) (by rw [h]; simp))

omit hs hle hk in
lemma aborts_splitBody {ws : List (ℕ × Bytes)} (hchain : Writes (chainBody ids b) ws ())
    {left right : Except Err Bytes} (h : (∃ e, left = .error e) ∨
      (∃ lb, left = .ok lb ∧ lb.length = dataPageBodySize) ∧ ∃ e, right = .error e) (leafID x : ℕ)
    (path : List PathEntry) (m : Key) (pool : List ℕ) :
    ∃ us, Aborts (splitBody ids b leafID x left right path m pool) us ∧
      ∀ u ∈ us, u ∈ ws ∨ u.1 = leafID ∧ u.2.length = dataPageBodySize := by
  obtain ⟨e,rfl⟩ | ⟨⟨lb,rfl,hlb⟩,e,rfl⟩ := h
  · refine ⟨ws++[],hchain.bind_aborts (aborts_codec rfl).bind,fun u hu => .inl ?_⟩
    simpa using hu
  · refine ⟨_,hchain.bind_aborts ((writes_codec rfl).bind_aborts
      (((writes_page leafID lb).wrap _).bind_aborts
      (aborts_codec rfl).bind)),fun u hu => ?_⟩
    simp only [List.nil_append,List.append_nil,List.mem_append,List.mem_singleton] at hu
    exact hu.imp id fun h => by rw [h]; exact ⟨rfl,hlb⟩

omit hk in
theorem doomed_split (hl : s.pages.Live l.id) (hb : maxValSizeEnterprise < b.length)
    (hpos : ids.length > 0) {a : ℕ} (hbv : b = beBytes 8 a++v) (hids : ∀ id ∈ ids, s.pages.Live id)
    (hnot : k ∉ l.entries.map Prod.fst) (hfull : maxLeafKeys ≤ l.entries.length)
    (hroom : s.pages.pageCount+(c.depth+2) ≤ maxPages) (hc : s.Clear .alloc (c.depth+2)) (next : ℕ) :
    ∃ s₁, Doomed (storeInLeaf (pathEntries c l.id) l.id ((flatten l.entries).map Prod.fst)
      ((flatten l.entries).map (fun e => e.2.packed)) next k ids b) s s₁ := by
  have hrun := storeInLeaf_split (k := k) (b := b) ids (pathEntries c l.id) l.id next
    (sorted_packedEntries.mpr hle.sorted)
    (fun x hx he => hnot (by
      rw [← flatten_keys,← packedEntries_keys]
      exact exists_key_iff.mp ⟨x,hx,he⟩)) (by simpa using hfull) rfl rfl
  rw [packedEntries_keys,packedEntries_vals,pathEntries_length] at hrun
  obtain ⟨x,pool,q,hq,-,hx⟩ := split_alloc hs hroom hc _
  have hlt : ∀ id ∈ ids, id < 256^8 := fun id hid => hs.live_lt_word (hids id hid)
  have hxb : x < 256^8 := hx.sound.live_lt_word (hx.fresh x (List.mem_cons_self ..)).2.1
  have hchain := writes_chain hlt hpos a v
  rw [← hbv] at hchain
  obtain ⟨us,hab,hus⟩ := aborts_splitBody hchain (oversize_halves hle hb hnot hxb next _ rfl) l.id x
    (pathEntries c l.id) _ pool
  refine ⟨_,quiet_alloc hx _,_,_,us,hab,fun u hu => ?_,(congrFun hrun s).trans hq⟩
  cases hus u hu with
  | inl hw =>
    have hm : u.1 ∈ ids := by
      rw [← chainWrites_ids ids v]
      exact List.mem_map_of_mem hw
    exact ⟨(hx.keep u.1 (hids u.1 hm)).1,chunkWrites_length hlt u hw⟩
  | inr h => exact ⟨h.1 ▸ (hx.keep l.id hl).1,h.2⟩

end Leaf

section Packed
variable {r : List ℕ × Bytes} (hk : k.length ≤ maxKeySize) (hv : v.length ≤ maxValSizeEnterprise)
  (ho : s.Opened) (hp : pack v s = (.ok r,s₁))
include hk hv ho hp

lemma set_first (hs : Shows s.pages s.rootPageID none) : set k v s = storeFirst k v r.1 r.2 s₁ := by
  have hroot : s.rootPageID = rootSentinel := hs.root_eq
  rw [set_admitted hk hv ho,if_pos hroot,setInEmpty_eq]
  exact Prog.bind_ok hp

variable (hs : Shows s.pages s.rootPageID (some ⟨H,t⟩))
include hs

lemma set_tree : set k v s = (do
    let (path,pageID,keys,vals,nextLeaf) ← findLeaf (s₁.pages.pageCount+1) s₁.rootPageID k
    storeInLeaf path pageID keys vals nextLeaf k r.1 r.2) s₁ := by
  have hroot : s.rootPageID≠rootSentinel := by
    have h : s.rootPageID = rootId H t := hs.root_eq
    rw [h]
    exact (hs.tree _ rfl : Rooted s.pages t).root_ne hs.sound
  rw [set_admitted hk hv ho,if_neg hroot,setInTree_eq]
  exact (Prog.bind_ok hp).trans ((Prog.bind_ok (Prog.get_run s₁)).trans (Prog.bind_ok (fuel_run s₁)))

variable (hq : Quiet s s₁)
include hq

lemma set_tree_ok (hd : descend (.upper k) H t .root = (c,l)) (hr : s₁.Clear .read (H+1)) :
    set k v s = storeInLeaf (pathEntries c l.id) l.id ((flatten l.entries).map Prod.fst)
      ((flatten l.entries).map (fun e => e.2.packed)) (nextOf c) k r.1 r.2 (s₁.tick .read (H+1)) := by
  obtain ⟨ids,hg⟩ := hq.grown
  have hs₁ : Shows s₁.pages s₁.rootPageID (some ⟨H,t⟩) := hq.root ▸ hs.extend hg
  rw [set_tree hk hv ho hp hs]
  exact Prog.bind_ok (findLeaf_ok hs₁ hd hr)

lemma set_tree_read_fault (hr : ¬s₁.Clear .read (H+1)) : Undone (set k v) s (some ⟨H,t⟩) := by
  obtain ⟨ids,hg⟩ := hq.grown
  have hs₁ : Shows s₁.pages s₁.rootPageID (some ⟨H,t⟩) := hq.root ▸ hs.extend hg
  have ht : Rooted s₁.pages t := hs₁.tree _ rfl
  have hroot : s₁.rootPageID = rootId H t := hs₁.root_eq
  obtain ⟨e,m,hw⟩ : ∃ e m, findLeaf (s₁.pages.pageCount+1) (rootId H t) k s₁ =
      (.error (.err e),s₁.tick .read m) :=
    walk_fault (Route.upper k) (fun _ _ h => upperBoundIdx_eq h k) (ht.readable hs₁.sound) .root
      ht.height_lt hr
  have hx : Ends (set k v) s none (s₁.tick .read m) := by
    refine ⟨e,?_⟩
    rw [set_tree hk hv ho hp hs,hroot]
    exact Prog.bind_error hw
  exact undone_of_ends hs hx (hq.trans (quiet_read hs₁.sound m))

end Packed
end Tree

/-- The store over a pager that has recovered. -/
def Store.healed (s : Store) : Store := { s with faults := fun _ _ => false }

/-- Far enough from the end of the address range for any one operation. -/
def Store.Roomy (s : Store) : Prop := s.pages.pageCount ≤ 2^49

/-- The pager calls of a `Set` apart from those for the value's overflow pages: pages read,
pages allocated for nodes, pages written; and whether the leaf is encoded inside the
transaction. -/
structure Footprint where
  reads : ℕ
  nodes : ℕ
  pages : ℕ
  late : Bool

def setFootprint (s : Store) (k : Key) : Footprint :=
  if s.rootPageID = rootSentinel then ⟨0,1,2,true⟩
  else match (findLeaf (s.pages.pageCount+1) s.rootPageID k s.healed).1 with
    | .ok (path,_,keys,_,_) =>
      if k ∈ keys ∨ keys.length < maxLeafKeys then ⟨path.length+1,0,1,false⟩
      else ⟨path.length+1,path.length+2,2+parentCount path,true⟩
    | .error _ => ⟨0,0,0,false⟩

def Root.leafAt (k : Key) : Root → List (Key × Slot)
  | none => []
  | some x => (descend (.upper k) x.1 x.2 .root).2.entries

def Root.withLeaf (k : Key) (es : List (Key × Slot)) : Root → List (Key × Slot)
  | none => es
  | some x => (descend (.upper k) x.1 x.2 .root).1.entriesL++es++
      (descend (.upper k) x.1 x.2 .root).1.entriesR

def Root.pathAt (k : Key) : Root → List (Frame Key ℕ)
  | none => []
  | some x => (descend (.upper k) x.1 x.2 .root).1.path

/-- A `Set` of the key uses all pages it takes: the leaf is not split, or the split goes up
through full nodes only. -/
def Root.Snug (k : Key) (o : Root) : Prop :=
  k ∈ (o.leafAt k).map Prod.fst ∨ (o.leafAt k).length < maxLeafKeys ∨
    ∀ f ∈ o.pathAt k, maxInternalKeys ≤ f.width

section Footprint
variable {s : Store} {es : List (Key × Slot)} {H : ℕ} {t : Tree Key Slot H} {k : Key}
  {c : Ctx Key Slot 0 H}
  {l : Leaf Key Slot}

lemma leafAt_some (hd : descend (.upper k) H t .root = (c,l)) :
    Root.leafAt k (some ⟨H,t⟩) = l.entries := by
  rw [Root.leafAt,hd]

lemma withLeaf_some (hd : descend (.upper k) H t .root = (c,l)) :
    Root.withLeaf k es (some ⟨H,t⟩) = c.entriesL++es++c.entriesR := by
  rw [Root.withLeaf,hd]

lemma pathAt_some (hd : descend (.upper k) H t .root = (c,l)) : Root.pathAt k (some ⟨H,t⟩) = c.path := by
  rw [Root.pathAt,hd]

lemma setFootprint_none (hs : Shows s.pages s.rootPageID none) : setFootprint s k = ⟨0,1,2,true⟩ :=
  if_pos hs.root_eq

lemma setFootprint_some (hs : Shows s.pages s.rootPageID (some ⟨H,t⟩))
    (hd : descend (.upper k) H t .root = (c,l)) :
    setFootprint s k = if k ∈ l.entries.map Prod.fst ∨ l.entries.length < maxLeafKeys then ⟨H+1,0,1,false⟩
      else ⟨H+1,H+2,2+parentCount (pathEntries c l.id),true⟩ := by
  have hroot : s.rootPageID≠rootSentinel := by
    have h : s.rootPageID = rootId H t := hs.root_eq
    rw [h]
    exact (hs.tree _ rfl : Rooted s.pages t).root_ne hs.sound
  have hf := findLeaf_ok (s := s.healed) hs hd fun i _ => rfl
  have hdep : (pathEntries c l.id).length = H :=
    (pathEntries_length ..).trans (located_of_descend hd).depth
  rw [setFootprint,if_neg hroot]
  have hp : s.healed.pages = s.pages := rfl
  have hr : s.healed.rootPageID = s.rootPageID := rfl
  rw [hp,hr] at hf
  rw [hf]
  simp only [flatten_keys,List.length_map,hdep]

end Footprint
end Plomvix.KV
