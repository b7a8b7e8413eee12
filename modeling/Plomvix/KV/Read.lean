import Plomvix.KV.Calls

/-! The state of an open store and what its reads return. `Shows` relates the pages to a
tree; `get` answers from the tree's entries and `scan` lists them between two bounds. -/
namespace Plomvix.KV
open Lib Pager BPlus

/-- A page store as the tree uses it: idle, its free pages distinct and behind the meta page. -/
structure Sound (p : PageStore) : Prop where
  idle : p.txn = none
  bound : p.pageCount ≤ maxPages
  free_nodup : p.freeList.Nodup
  free : ∀ id ∈ p.freeList, metaPageID < id ∧ id < p.pageCount
  meta_lt : metaPageID < p.pageCount

/-- A search tree on the pages of a store, every page its own and none of them the meta page. -/
structure Rooted (p : PageStore) {H : ℕ} (t : Tree Key Slot H) : Prop where
  holds : Holds p.body t
  ordered : Ordered H t
  key_size : ∀ i ∈ items H t, i.val.length ≤ maxKeySize
  leaf_size : ∀ l ∈ leaves H t, l.entries.length ≤ maxLeafKeys
  inner_size : ∀ n ∈ inners H t, n.keys.length ≤ maxInternalKeys
  nodup : (pagesOf t).Nodup
  live : ∀ id ∈ pagesOf t, p.Live id ∧ id≠metaPageID

abbrev Root := Option ((H : ℕ) × Tree Key Slot H)

def Root.id : Root → ℕ
  | none => rootSentinel
  | some x => rootId x.1 x.2

def Root.contents : Root → List (Key × Slot)
  | none => []
  | some x => entries x.1 x.2

/-- The pages hold the tree below the root of the meta page. -/
structure Shows (p : PageStore) (root : ℕ) (o : Root) : Prop where
  sound : Sound p
  meta_page : decodeMetaPage (p.body metaPageID) = .ok root
  root_eq : root = o.id
  tree : ∀ x ∈ o, Rooted p x.2

def Store.Opened (s : Store) : Prop := s.isOpen = true ∧ s.closed = false

def Store.Healthy (s : Store) : Prop := ∀ c n, s.faults c n = false

lemma Store.Healthy.clear {s : Store} (h : s.Healthy) (c : PagerCall) (n : ℕ) : s.Clear c n :=
  fun i _ => h c (s.seen c+i)

lemma Store.Healthy.tick {s : Store} (h : s.Healthy) (c : PagerCall) (n : ℕ) :
    (s.tick c n).Healthy := h

lemma view_idle {p : PageStore} (h : p.txn = none) : p.view = p.body := by
  funext id
  simp [PageStore.view,h]

lemma Sound.live_meta {p : PageStore} (h : Sound p) : p.Live metaPageID :=
  ⟨le_refl _,h.meta_lt,fun hm => lt_irrefl _ (h.free _ hm).1⟩

lemma Sound.live_lt {p : PageStore} (h : Sound p) {id : ℕ} (hl : p.Live id) : id < 2^51 :=
  hl.2.1.trans_le h.bound

lemma Sound.not_end {p : PageStore} (h : Sound p) {id : ℕ} (hl : p.Live id) :
    ¬(id = rootSentinel ∨ id = 0) := by
  have hlt := h.live_lt hl
  have hge := hl.1
  simp only [rootSentinel,firstDataPageID] at hge ⊢
  omega

section Rooted
variable {p : PageStore} {H : ℕ} {t : Tree Key Slot H}

lemma leaf_mem_pagesOf {l : Leaf Key Slot} (hl : l ∈ leaves H t) : l.id ∈ pagesOf t :=
  List.mem_append_left _ (List.mem_append_left _ (List.mem_map_of_mem hl))

lemma inner_mem_pagesOf {n : BPlus.Inner Key ℕ} (hn : n ∈ inners H t) : n.id ∈ pagesOf t :=
  List.mem_append_left _ (List.mem_append_right _ (List.mem_map_of_mem hn))

lemma overflow_mem_pagesOf {e : Key × Slot} (he : e ∈ entries H t) {id : ℕ} (hid : id ∈ e.2.pages) :
    id ∈ pagesOf t := List.mem_append_right _ (List.mem_flatMap.mpr ⟨e,he,hid⟩)

lemma Rooted.readable (h : Rooted p t) (hs : Sound p) : Readable p t where
  inner n hn := by
    rw [view_idle hs.idle]
    exact ⟨(h.live _ (inner_mem_pagesOf hn)).1,h.holds.inner n hn⟩
  leaf l hl := by
    rw [view_idle hs.idle]
    obtain ⟨nx,hd⟩ := h.holds.leaf.mem l hl
    exact ⟨(h.live _ (leaf_mem_pagesOf hl)).1,(decodeLeafNodeRefs_type hd).2⟩

lemma Rooted.pages_le (h : Rooted p t) : (pagesOf t).length ≤ p.pageCount := by
  have hs : pagesOf t ⊆ List.range p.pageCount := fun id hid =>
    List.mem_range.mpr (h.live id hid).1.2.1
  simpa using (h.nodup.subperm hs).length_le

lemma Rooted.height_lt (h : Rooted p t) : H < p.pageCount+1 := by
  have h1 := height_le_inners H t
  have h2 := h.pages_le
  simp only [pagesOf,ids,List.length_append,List.length_map] at h2
  omega

lemma Rooted.leaves_lt (h : Rooted p t) : (leaves H t).length < p.pageCount+1 := by
  have h2 := h.pages_le
  simp only [pagesOf,ids,List.length_append,List.length_map] at h2
  omega

end Rooted

lemma take_padTo_take (n : ℕ) (b : Bytes) : (padTo n (b.take n)).take b.length = b.take n := by
  by_cases h : n ≤ b.length
  · rw [padTo_of_length (by simp [h]),List.take_of_length_le (by simp [h])]
  · rw [List.take_of_length_le (by omega : b.length ≤ n),take_padTo]

lemma numOverflow_pos {v : Bytes} (h : maxValSize < v.length) : 0 < numOverflow v := by
  simp only [numOverflow,overflowChunkSize,maxValSize] at h ⊢
  omega

lemma numOverflow_le {v : Bytes} (h : v.length+8 ≤ maxValSizeEnterprise) :
    numOverflow v ≤ maxOverflowChainLen := by
  simp only [numOverflow,overflowChunkSize,maxValSizeEnterprise,maxOverflowChainLen] at h ⊢
  omega

section Values
variable {s : Store}

lemma followChain_end {totalLen n pageID : ℕ} {b : Bytes} (h : pageID = rootSentinel ∨ pageID = 0) :
    followChain totalLen n pageID b s = (.ok b,s) := by
  unfold followChain
  rw [if_pos h]
  rfl

lemma followChain_ok (hh : s.Healthy) (hs : Sound s.pages) {ids : List ℕ} {rest b : Bytes} {n : ℕ}
    (hc : Chained s.pages.body ids rest) (hl : ∀ id ∈ ids, s.pages.Live id) (hn : ids.length ≤ n) :
    followChain (b.length+rest.length) n (ids.headD rootSentinel) b s =
      (.ok (b++rest),s.tick .read ids.length) := by
  induction ids generalizing s rest b n with
  | nil =>
    obtain rfl : rest = [] := hc
    unfold followChain
    simp
  | cons id ids ih =>
    obtain ⟨hd,hc⟩ := hc
    obtain ⟨n,rfl⟩ : ∃ m, n = m+1 := ⟨n-1,by simp at hn; omega⟩
    have hid := hl id (by simp)
    unfold followChain
    rw [List.headD_cons,if_neg (hs.not_end hid)]
    simp only
    rw [Prog.bind_ok (wrap_ok (readPage_ok hid (hh ..))),view_idle hs.idle,Prog.bind_ok (codec_ok hd _)]
    simp only [Nat.add_sub_cancel_left,take_padTo_take]
    have hlen : b.length+rest.length =
        (b++rest.take overflowChunkSize).length+(rest.drop overflowChunkSize).length := by
      simp only [List.length_append,List.length_take,List.length_drop]
      omega
    rw [hlen,ih (s := s.tick .read 1) (hh.tick _ _) hs hc (fun i hi => hl i (by simp [hi]))
      (by simpa using hn),List.append_assoc,List.take_append_drop,Store.tick_tick,List.length_cons,
      Nat.add_comm 1]

theorem slotValue_ok (hh : s.Healthy) (hs : Sound s.pages) {e : Slot} (he : e.Stored s.pages.body)
    (hl : ∀ id ∈ e.pages, s.pages.Live id) :
    slotValue e.ref s = (.ok e.value,s.tick .read e.pages.length) := by
  cases e with
  | inline v h =>
    rw [Slot.ref_inline]
    simp [slotValue,Slot.pages,Slot.value]
  | overflow v ids h1 h2 h3 =>
    obtain ⟨id,rest,rfl⟩ : ∃ id rest, ids = id::rest :=
      List.exists_cons_of_length_pos (by rw [h3]; exact numOverflow_pos h1)
    have hid := hs.live_lt (hl id (by simp [Slot.pages]))
    have hmod : id%256^8 = id := Nat.mod_eq_of_lt (hid.trans_le (by norm_num))
    have hlen : v.length = (v.take 504).length+(v.drop 504).length := by
      simp only [List.length_take,List.length_drop]
      omega
    have hf := followChain_ok (n := maxOverflowChainLen) (b := v.take 504) hh hs he hl
      (by rw [h3]; exact numOverflow_le h2)
    rw [← hlen,List.headD_cons,List.take_append_drop] at hf
    rw [Slot.ref_overflow,slotValue,if_pos rfl,readOverflowValue]
    simp only [List.headD_cons,hmod]
    rw [Prog.bind_ok hf]
    simp [Slot.pages,Slot.value]

end Values

lemma checkOpen_ok {s : Store} (h : s.Opened) : checkOpen s = (.ok (),s) := by
  change (if s.closed then _ else if !s.isOpen then _ else _ : Cmd Unit) s = _
  rw [h.1,h.2]
  rfl

lemma fuel_run (s : Store) : fuel s = (.ok (s.pages.pageCount+1),s) := rfl

/-- The result of reading a key from some entries. -/
def found (x : Option Slot) : Except Fail Bytes :=
  match x with
  | some e => .ok e.value
  | none => .error (.err .keyNotFound)

section Lookup
variable {s : Store} {H : ℕ} {t : Tree Key Slot H}

lemma searchLeaf_run {l : Leaf Key Slot} {body : Bytes} {nx : ℕ} (k : Key) (s : Store)
    (hd : decodeLeafNodeRefs body = .ok (l.entries.map Prod.fst,l.entries.map (fun e => e.2.ref),nx)) :
    searchLeaf k body s = match Assoc.lookup k l.entries with
      | some e => slotValue e.ref s
      | none => (.error (.err .keyNotFound),s) := by
  rw [searchLeaf,Prog.bind_ok (codec_ok hd s)]
  have hz : (l.entries.map Prod.fst).zip (l.entries.map (fun e => e.2.ref)) =
      l.entries.map (fun e => (e.1,e.2.ref)) := by rw [List.zip_map']
  have hcomp : (fun e : Key × LeafValueRef => decide (e.1 = k))∘
      (fun e : Key × Slot => (e.1,e.2.ref)) = fun e => decide (e.1 = k) := rfl
  rw [← Assoc.find?_eq_lookup (k := k) (p := fun e : Key × Slot => decide (e.1 = k)) (fun e => by simp)]
  simp only [hz,List.find?_map,hcomp]
  cases l.entries.find? (fun e => decide (e.1 = k)) <;> rfl

lemma searchLeaf_ok (hh : s.Healthy) (hs : Sound s.pages) {l : Leaf Key Slot} {nx : ℕ} (k : Key)
    (hd : decodeLeafNodeRefs (s.pages.body l.id) =
      .ok (l.entries.map Prod.fst,l.entries.map (fun e => e.2.ref),nx))
    (he : ∀ e ∈ l.entries, e.2.Stored s.pages.body)
    (hl : ∀ e ∈ l.entries, ∀ id ∈ e.2.pages, s.pages.Live id) :
    ∃ m, searchLeaf k (s.pages.body l.id) s = (found (Assoc.lookup k l.entries),s.tick .read m) := by
  rw [searchLeaf_run k s hd]
  cases hx : Assoc.lookup k l.entries with
  | none => exact ⟨0,by rw [Store.tick_zero]; rfl⟩
  | some e =>
    have hm := Assoc.mem_of_lookup hx
    exact ⟨_,slotValue_ok hh hs (he _ hm) (hl _ hm)⟩

lemma search_at (hh : s.Healthy) (hi : s.pages.txn = none) (ht : Readable s.pages t)
    (hn : H < s.pages.pageCount+1) {k : Key} {c : Ctx Key Slot 0 H} {l : Leaf Key Slot}
    (hd : descend (Route.upper k) H t .root = (c,l)) :
    search (s.pages.pageCount+1) (rootId H t) k s =
      searchLeaf k (s.pages.body l.id) (s.tick .read (H+1)) := by
  rw [search]
  refine (walk_ok (Route.upper k) (fun _ _ h => upperBoundIdx_eq h k) ht .root hn
    (hh.clear .read (H+1)) hd).trans ?_
  rw [view_idle hi]

theorem search_ok (hh : s.Healthy) (hs : Sound s.pages) (ht : Rooted s.pages t) (k : Key) :
    ∃ m, search (s.pages.pageCount+1) (rootId H t) k s =
      (found (Assoc.lookup k (entries H t)),s.tick .read m) := by
  obtain ⟨c,l,hd,hl⟩ := exists_located t k
  obtain ⟨nx,hx⟩ := ht.holds.leaf.mem l hl.mem_leaves
  obtain ⟨m,hm⟩ := searchLeaf_ok (s := s.tick .read (H+1)) hh hs k hx
    (fun e he => ht.holds.slot e (hl.mem_entries he))
    (fun e he id hid => (ht.live id (overflow_mem_pagesOf (hl.mem_entries he) hid)).1)
  refine ⟨H+1+m,?_⟩
  rw [hl.lookup ht.ordered,search_at hh hs.idle (ht.readable hs) ht.height_lt hd]
  refine hm.trans ?_
  rw [Store.tick_tick]

end Lookup

lemma Rooted.root_ne {p : PageStore} (hs : Sound p) {H : ℕ} {t : Tree Key Slot H} (ht : Rooted p t) :
    rootId H t≠rootSentinel := by
  have hm : rootId H t ∈ pagesOf t := by
    cases H with
    | zero => exact leaf_mem_pagesOf (l := t.toLeaf) (List.mem_cons_self ..)
    | succ H => exact inner_mem_pagesOf (n := t.toInner.map (rootId H)) (List.mem_cons_self ..)
  exact fun h => hs.not_end (ht.live _ hm).1 (.inl h)

theorem get_ok {s : Store} (hh : s.Healthy) (ho : s.Opened) {o : Root}
    (hs : Shows s.pages s.rootPageID o) (k : Key) :
    ∃ m, get k s = (found (Assoc.lookup k o.contents),s.tick .read m) := by
  rw [get,Prog.bind_ok (checkOpen_ok ho),Prog.bind_ok (Prog.get_run s)]
  cases o with
  | none =>
    have hr : s.rootPageID = rootSentinel := hs.root_eq
    refine ⟨0,?_⟩
    rw [if_pos hr,Store.tick_zero]
    rfl
  | some x =>
    have ht := hs.tree x rfl
    have hr : s.rootPageID = rootId x.1 x.2 := hs.root_eq
    rw [hr,if_neg (ht.root_ne hs.sound),Prog.bind_ok (fuel_run s)]
    exact search_ok hh hs.sound ht k

/-- Between the bounds of a scan; an empty bound does not restrict. -/
def InRange (first last k : Key) : Prop := (first = [] ∨ first ≤ k) ∧ (last = [] ∨ k < last)

instance (first last k : Key) : Decidable (InRange first last k) := by unfold InRange; infer_instance

def scanned (first last : Key) (es : List (Key × Slot)) : List Entry :=
  (es.filter (fun e => InRange first last e.1)).map (fun e => (e.1,e.2.value))

section Scan
variable {first last : Key}

lemma scanned_append (as bs : List (Key × Slot)) :
    scanned first last (as++bs) = scanned first last as++scanned first last bs := by
  simp [scanned]

lemma scanned_eq_nil {es : List (Key × Slot)} (h : ∀ e ∈ es, ¬InRange first last e.1) :
    scanned first last es = [] := by
  simpa [scanned] using h

lemma scanned_above (es : List (Key × Slot)) (hl : last≠[]) (h : ∀ e ∈ es, last ≤ e.1) :
    scanned first last es = [] :=
  scanned_eq_nil fun e he hr => hr.2.elim hl fun hlt => absurd hlt (not_lt.mpr (h e he))

variable {s : Store} (first last)

lemma scanSlots_ok (hh : s.Healthy) (hs : Sound s.pages) {es : List (Key × Slot)}
    (hsort : Assoc.Sorted es) (he : ∀ e ∈ es, e.2.Stored s.pages.body)
    (hl : ∀ e ∈ es, ∀ id ∈ e.2.pages, s.pages.Live id) (results : List Entry) :
    ∃ b m, scanSlots first last (es.map (fun e => (e.1,e.2.ref))) results s =
      (.ok (b,results++scanned first last es),s.tick .read m) ∧
      (b = true → last≠[] ∧ ∃ x ∈ es, last ≤ x.1) := by
  induction es generalizing s results with
  | nil => exact ⟨false,0,by simp [scanSlots,scanned],by simp⟩
  | cons e es ih =>
    obtain ⟨hlt,hrest⟩ := Assoc.sorted_cons.mp hsort
    have he' : ∀ x ∈ es, x.2.Stored s.pages.body := fun x hx => he x (by simp [hx])
    have hl' : ∀ x ∈ es, ∀ id ∈ x.2.pages, s.pages.Live id := fun x hx => hl x (by simp [hx])
    rw [List.map_cons,scanSlots]
    split
    · rename_i hlow
      obtain ⟨b,m,hrun,hb⟩ := ih hh hs hrest he' hl' results
      have hout : ¬InRange first last e.1 := by
        rintro ⟨hf | hf,-⟩
        · simp [hf] at hlow
        · exact absurd hlow.2 (not_lt.mpr hf)
      refine ⟨b,m,?_,fun hx => ?_⟩
      · rw [hrun,scanned,scanned,List.filter_cons_of_neg (by simpa using hout)]
      · obtain ⟨h1,x,hx,h2⟩ := hb hx
        exact ⟨h1,x,by simp [hx],h2⟩
    · split
      · rename_i hhigh
        have hne : last≠[] := List.ne_nil_of_length_pos hhigh.1
        have hle : last ≤ e.1 := not_lt.mp hhigh.2
        refine ⟨true,0,?_,fun _ => ⟨hne,e,by simp,hle⟩⟩
        rw [scanned_above _ hne,List.append_nil,Store.tick_zero]
        · rfl
        · intro x hx
          cases List.mem_cons.mp hx with
          | inl hx => exact hx ▸ hle
          | inr hx => exact hle.trans (hlt x hx).le
      · rename_i hlow hhigh
        obtain ⟨b,m,hrun,hb⟩ := ih (s := s.tick .read e.2.pages.length) hh hs hrest he' hl'
          (results++[(e.1,e.2.value)])
        have hin : InRange first last e.1 := by
          constructor
          · by_cases hf : first = []
            · exact .inl hf
            · exact .inr (not_lt.mp fun hx => hlow ⟨List.length_pos_iff.mpr hf,hx⟩)
          · by_cases hf : last = []
            · exact .inl hf
            · exact .inr (not_not.mp fun hx => hhigh ⟨List.length_pos_iff.mpr hf,hx⟩)
        refine ⟨b,e.2.pages.length+m,?_,fun hx => ?_⟩
        · rw [Prog.bind_ok (slotValue_ok hh hs (he e (by simp)) (hl e (by simp))),hrun,Store.tick_tick,
            scanned,scanned,List.filter_cons_of_pos (by simpa using hin)]
          simp
        · obtain ⟨h1,x,hx,h2⟩ := hb hx
          exact ⟨h1,x,by simp [hx],h2⟩

lemma scanLeaf_ok (hh : s.Healthy) (hs : Sound s.pages) {ls : List (Leaf Key Slot)}
    (hrun : LeafRun s.pages.body rootSentinel ls) (hsort : Assoc.Sorted (ls.flatMap Leaf.entries))
    (hlive : ∀ l ∈ ls, s.pages.Live l.id)
    (he : ∀ e ∈ ls.flatMap Leaf.entries, e.2.Stored s.pages.body)
    (hl : ∀ e ∈ ls.flatMap Leaf.entries, ∀ id ∈ e.2.pages, s.pages.Live id) (results : List Entry)
    {n : ℕ} (hn : ls.length < n) :
    ∃ m, scanLeaf first last n ((ls.map Leaf.id).headD rootSentinel) results s =
      (.ok (results++scanned first last (ls.flatMap Leaf.entries)),s.tick .read m) := by
  induction ls generalizing s results n with
  | nil =>
    obtain ⟨n,rfl⟩ : ∃ m, n = m+1 := ⟨n-1,by omega⟩
    refine ⟨0,?_⟩
    rw [scanLeaf]
    simp [scanned]
  | cons l ls ih =>
    obtain ⟨n,rfl⟩ : ∃ m, n = m+1 := ⟨n-1,by omega⟩
    obtain ⟨hd,hrun⟩ := hrun
    rw [List.flatMap_cons] at hsort he hl ⊢
    obtain ⟨hsl,hsr,hcross⟩ := Assoc.sorted_append.mp hsort
    have hid := hlive l (by simp)
    obtain ⟨b,m,hslots,hb⟩ := scanSlots_ok first last (s := s.tick .read 1) hh hs hsl
      (fun e hm => he e (List.mem_append_left _ hm)) (fun e hm => hl e (List.mem_append_left _ hm)) results
    have hz : (l.entries.map Prod.fst).zip (l.entries.map (fun e => e.2.ref)) =
        l.entries.map (fun e => (e.1,e.2.ref)) := by rw [List.zip_map']
    rw [List.map_cons,List.headD_cons,scanLeaf,if_neg (hs.not_end hid),
      Prog.bind_ok (wrap_ok (readPage_ok hid (hh ..))),view_idle hs.idle,Prog.bind_ok (codec_ok hd _)]
    simp only [hz]
    rw [Prog.bind_ok hslots]
    cases b with
    | true =>
      obtain ⟨hne,x,hx,hle⟩ := hb rfl
      refine ⟨1+m,?_⟩
      rw [scanned_append,scanned_above (ls.flatMap Leaf.entries) hne
        (fun y hy => hle.trans (hcross x hx y hy).le),List.append_nil,Store.tick_tick]
      rfl
    | false =>
      obtain ⟨m',hrest⟩ := ih (s := (s.tick .read 1).tick .read m) hh hs hrun hsr
        (fun x hx => hlive x (by simp [hx])) (fun e hm => he e (List.mem_append_right _ hm))
        (fun e hm => hl e (List.mem_append_right _ hm)) (results++scanned first last l.entries)
        (n := n) (by simpa using hn)
      refine ⟨1+(m+m'),?_⟩
      simp only [Bool.false_eq_true,if_false]
      rw [hrest,scanned_append,List.append_assoc,Store.tick_tick,Store.tick_tick]

lemma scanFrom_ok (text : ℕ → String) (hh : s.Healthy) (hs : Sound s.pages) {H : ℕ}
    {t : Tree Key Slot H} (ht : Rooted s.pages t) :
    ∃ m, scanFrom text first last (s.pages.pageCount+1) (rootId H t) s =
      (.ok (scanned first last (entries H t)),s.tick .read m) := by
  obtain ⟨r,c,l,hp,hd,hplug,hskip⟩ : ∃ (r : Route Key) (c : Ctx Key Slot 0 H) (l : Leaf Key Slot),
      (∀ (ptrs : List ℕ) (ks : List Key), ptrs.length = ks.length+1 →
        (if first.length = 0 then 0 else upperBoundIdx ptrs ks first) = r.pick ks) ∧
      descend r H t .root = (c,l) ∧ c.plug (.leaf l) = t ∧ ∀ e ∈ c.entriesL, ¬InRange first last e.1 := by
    by_cases hf : first.length = 0
    · refine ⟨.first,_,_,fun ptrs ks _ => if_pos hf,rfl,descend_plug ..,?_⟩
      have hl := (descend_first H t (.root : Ctx Key Slot H H) trivial).leavesL
      simp [Ctx.entriesL,hl]
    · obtain ⟨c,l,hd,hl⟩ := exists_located t first
      refine ⟨.upper first,c,l,fun ptrs ks h => ?_,hd,hl.plug,fun e he hr => ?_⟩
      · rw [if_neg hf]
        exact upperBoundIdx_eq h first
      · cases hr.1 with
        | inl h => exact hf (by simp [h])
        | inr h => exact absurd (hl.left ht.ordered e he) (not_lt.mpr h)
  have hleaves : leaves H t = c.leavesL++l::c.leavesR := by
    rw [← hplug,Ctx.leaves_plug]
    simp
  have hents : entries H t = c.entriesL++(l::c.leavesR).flatMap Leaf.entries := by
    rw [entries,hleaves,List.flatMap_append]
    rfl
  have hsort := ht.ordered.sorted_entries
  rw [hents] at hsort
  have hmem : ∀ x ∈ l::c.leavesR, x ∈ leaves H t := fun x hx => by
    rw [hleaves]
    exact List.mem_append_right _ hx
  have hent : ∀ e ∈ (l::c.leavesR).flatMap Leaf.entries, e ∈ entries H t := fun e he => by
    rw [hents]
    exact List.mem_append_right _ he
  have hrun := ht.holds.leaf
  rw [hleaves,leafRun_append] at hrun
  have hlen := ht.leaves_lt
  rw [hleaves,List.length_append] at hlen
  obtain ⟨m,hm⟩ := scanLeaf_ok first last (s := s.tick .read (H+1)) hh hs hrun.2
    (Assoc.sorted_append.mp hsort).2.1
    (fun x hx => (ht.live _ (leaf_mem_pagesOf (hmem x hx))).1)
    (fun e he => ht.holds.slot e (hent e he))
    (fun e he id hid => (ht.live _ (overflow_mem_pagesOf (hent e he) hid)).1) []
    (n := s.pages.pageCount+1) (by omega)
  refine ⟨H+1+m,?_⟩
  rw [hents,scanned_append,scanned_eq_nil hskip]
  refine (walk_ok r hp (ht.readable hs) .root ht.height_lt (hh.clear .read (H+1)) hd).trans ?_
  rw [Prog.bind_ok (fuel_run _)]
  refine hm.trans ?_
  rw [Store.tick_tick]

theorem scan_ok (hh : s.Healthy) (ho : s.Opened) {o : Root} (hs : Shows s.pages s.rootPageID o) :
    ∃ m, scan first last s = (.ok (scanned first last o.contents),s.tick .read m) := by
  rw [scan,Prog.bind_ok (checkOpen_ok ho),Prog.bind_ok (Prog.get_run s)]
  cases o with
  | none =>
    have hr : s.rootPageID = rootSentinel := hs.root_eq
    refine ⟨0,?_⟩
    rw [if_pos hr,Store.tick_zero]
    rfl
  | some x =>
    have ht := hs.tree x rfl
    have hr : s.rootPageID = rootId x.1 x.2 := hs.root_eq
    rw [hr,if_neg (ht.root_ne hs.sound),Prog.bind_ok (fuel_run s)]
    exact scanFrom_ok first last _ hh hs.sound ht

end Scan
end Plomvix.KV
