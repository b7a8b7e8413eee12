import Plomvix.KV.Compaction

/-! `Check` of `btree.go`, and when it accepts a store that writes have led to: an overflow
chain passes only if it ends on a page boundary of its value, since the chunks are counted
with their padding. -/
namespace Plomvix.KV
open Lib Pager BPlus
variable {s : Store}

/-- The chain loop of `checkOverflowChain`, with the pages it may still read and the bytes
counted so far. -/
def checkChain (totalLen pageCount : ℕ) : ℕ → ℕ → ℕ → List ℕ → Cmd (List ℕ)
  | n,pageID,bufLen,visited =>
    if pageID = rootSentinel ∨ pageID = 0 then
      if bufLen ≠ totalLen then
        fail (.wrap s!"overflow chain length mismatch: got {bufLen}, want {totalLen}" .treeCorrupt)
      else pure visited
    else match n with
      | 0 => fail (.wrap "overflow chain exceeds max length" .treeCorrupt)
      | n+1 =>
        if pageID ≥ pageCount then fail (.wrap s!"overflow page {pageID} out of range" .treeCorrupt)
        else if pageID ∈ visited then
          fail (.wrap s!"double-reference or cycle at overflow page {pageID}" .treeCorrupt)
        else do
          let body ← wrap s!"kv: check overflow page {pageID}" (readPage pageID)
          let (nextPtr,chunk) ← codec (decodeOverflowPage body)
          checkChain totalLen pageCount n nextPtr (bufLen+chunk.length) (pageID::visited)

def checkOverflowChain (pageCount : ℕ) (visited : List ℕ) (ref : LeafValueRef) : Cmd (List ℕ) :=
  if ref.hasOverflow then
    checkChain ref.totalLen pageCount maxOverflowChainLen ref.overflowPageID ref.inline.length visited
  else pure visited

/-- The first position whose key is not above the key before it. -/
def unsortedAt : ℕ → List Key → Option ℕ
  | i,a::b::ks => if a < b then unsortedAt (i+1) (b::ks) else some i
  | _,_ => none

def checkSorted (text : ℕ → String) (keys : List Key) : Cmd Unit :=
  match unsortedAt 1 keys with
  | some i => fail (.wrap (text i) .treeCorrupt)
  | none => pure ()

/-- A decoding error, reported as a corrupt page. -/
def corrupt (pageID : ℕ) : Err → Err
  | .wrap text _ => .wrap s!"page {pageID}: {text}" .treeCorrupt
  | _ => .wrap s!"page {pageID}" .treeCorrupt

def showKey (k : Key) : String := "["++" ".intercalate (k.map fun b => toString b.toNat)++"]"

def checkBound (pageID : ℕ) (prevKey : Option Key) (keys : List Key) : Cmd Unit :=
  match prevKey,keys with
  | some sep,k::_ =>
    if k < sep then
      let a := showKey k
      let b := showKey sep
      fail (.wrap s!"page {pageID} leaf key {a} < separator {b}" .treeCorrupt)
    else pure ()
  | _,_ => pure ()

def checkLeaf (pageCount pageID : ℕ) (prevKey : Option Key) (visited : List ℕ) (body : Bytes) :
    Cmd (List ℕ) := do
  let (keys,refs,nextLeaf) ← codec ((decodeLeafNodeRefs body).mapError (corrupt pageID))
  checkSorted (fun i => s!"page {pageID} leaf keys not sorted at index {i}") keys
  checkBound pageID prevKey keys
  let visited ← refs.foldlM (checkOverflowChain pageCount) visited
  if nextLeaf ≠ rootSentinel ∧ nextLeaf ≠ 0 ∧ nextLeaf ≥ pageCount then
    fail (.wrap s!"page {pageID} nextLeaf {nextLeaf} out of range" .treeCorrupt)
  else pure visited

def checkNode (pageCount : ℕ) : ℕ → ℕ → Option Key → List ℕ → Cmd (List ℕ)
  | 0,_,_,_ => .stop .diverge
  | n+1,pageID,prevKey,visited =>
    if pageID ≥ pageCount then
      let last := pageCount-1
      fail (.wrap s!"page {pageID} out of range (max {last})" .treeCorrupt)
    else if pageID ∈ visited then
      fail (.wrap s!"double-reference or cycle at page {pageID}" .treeCorrupt)
    else do
      let body ← wrap s!"kv: check read page {pageID}" (readPage pageID)
      if body.headD 0 = nodeTypeLeaf then checkLeaf pageCount pageID prevKey (pageID::visited) body
      else if body.headD 0 = nodeTypeInternal then do
        let (childPtrs,ikeys) ← codec ((decodeInternalNode body).mapError (corrupt pageID))
        checkSorted (fun i => s!"page {pageID} internal keys not sorted at index {i}") ikeys
        (childPtrs.zip (none::ikeys.map some)).foldlM
          (fun visited child => checkNode pageCount n child.1 child.2 visited) (pageID::visited)
      else
        let hex := String.ofList (Nat.toDigits 16 (body.headD 0).toNat)
        fail (.wrap s!"page {pageID} has unknown node type 0x{hex}" .treeCorrupt)

/-- The visited pages are all different, so fuel beyond the page count is never used up. -/
def check : Cmd Unit := do
  checkOpen
  let s ← Prog.get
  if s.rootPageID = rootSentinel then pure ()
  else do
    let pc ← wrap "kv: check page count" pageCount
    let _ ← checkNode pc (← fuel) s.rootPageID none []
    pure ()

section Sorted
variable {keys : List Key}

lemma unsortedAt_none (i : ℕ) : unsortedAt i keys = none ↔ keys.Pairwise (· < ·) := by
  induction keys generalizing i with
  | nil => simp [unsortedAt]
  | cons a keys ih =>
    cases keys with
    | nil => simp [unsortedAt]
    | cons b ks =>
      rw [unsortedAt]
      by_cases hab : a < b
      · rw [if_pos hab,ih,List.pairwise_cons (l := b::ks)]
        refine ⟨fun h => ⟨fun x hx => ?_,h⟩,fun h => h.2⟩
        cases List.mem_cons.mp hx with
        | inl he => exact he ▸ hab
        | inr hm => exact hab.trans ((List.pairwise_cons.mp h).1 x hm)
      · rw [if_neg hab]
        simp [hab]

lemma checkSorted_ok {text : ℕ → String} (h : keys.Pairwise (· < ·)) (s : Store) :
    checkSorted text keys s = (.ok (),s) := by
  rw [checkSorted,(unsortedAt_none 1).mpr h]
  rfl

lemma of_checkSorted {text : ℕ → String} {s s' : Store}
    (h : checkSorted text keys s = (.ok (),s')) : keys.Pairwise (· < ·) ∧ s' = s := by
  unfold checkSorted at h
  cases hu : unsortedAt 1 keys with
  | some i =>
    rw [hu] at h
    cases h
  | none =>
    rw [hu] at h
    exact ⟨(unsortedAt_none 1).mp hu,(Prod.mk.inj h).2.symm⟩

end Sorted

section Accepted
variable {s s' : Store} {pc : ℕ} {vs vs' : List ℕ} {prevKey : Option Key}
variable {totalLen n pageID bufLen : ℕ}

lemma of_mapError {α : Type} {f : Err → Err} {x : Except Err α} {a : α}
    (h : codec (x.mapError f) s = (.ok a,s')) : x = .ok a ∧ s' = s := by
  obtain ⟨hx,rfl⟩ := of_codec_ok h
  cases x with
  | error e => cases hx
  | ok b => exact ⟨hx,rfl⟩

lemma of_checkChain_end (hend : pageID = rootSentinel ∨ pageID = 0)
    (h : checkChain totalLen pc n pageID bufLen vs s = (.ok vs',s')) : s' = s ∧ bufLen = totalLen := by
  unfold checkChain at h
  rw [if_pos hend] at h
  split at h
  · cases h
  · exact ⟨(Prog.of_pure_ok h).2.symm,by omega⟩

lemma of_checkChain_step (hend : ¬(pageID = rootSentinel ∨ pageID = 0))
    (h : checkChain totalLen pc n pageID bufLen vs s = (.ok vs',s')) :
    ∃ k r, n = k+1 ∧ s.pages.Live pageID ∧ decodeOverflowPage (s.pages.view pageID) = .ok r ∧
      checkChain totalLen pc k r.1 (bufLen+r.2.length) (pageID::vs) (s.tick .read 1) = (.ok vs',s') := by
  unfold checkChain at h
  rw [if_neg hend] at h
  cases n with
  | zero => cases h
  | succ n =>
    simp only at h
    split at h
    · cases h
    split at h
    · cases h
    obtain ⟨body,s₂,hread,h⟩ := Prog.of_bind_ok h
    obtain ⟨r,s₃,hdec,h⟩ := Prog.of_bind_ok h
    obtain ⟨hlive,rfl,rfl⟩ := of_readPage (of_wrap_ok hread)
    obtain ⟨hd,rfl⟩ := of_codec_ok hdec
    exact ⟨n,r,rfl,hlive,hd,h⟩

lemma of_checkChain (h : checkChain totalLen pc n pageID bufLen vs s = (.ok vs',s')) :
    (∃ m, s' = s.tick .read m) ∧ bufLen ≤ totalLen ∧ ∀ s₁ : Store, s₁.Healthy → s₁.pages = s.pages →
      ∀ b : Bytes, b.length = bufLen →
        ∃ r m, followChain totalLen n pageID b s₁ = (.ok r,s₁.tick .read m) ∧ r.length = totalLen := by
  induction n using Nat.strong_induction_on generalizing s pageID bufLen vs with
  | _ n ih =>
    by_cases hend : pageID = rootSentinel ∨ pageID = 0
    · obtain ⟨rfl,rfl⟩ := of_checkChain_end hend h
      refine ⟨⟨0,by simp⟩,le_refl _,fun s₁ _ _ b hb => ⟨b,0,?_,hb⟩⟩
      rw [followChain_end hend,Store.tick_zero]
    obtain ⟨k,r,rfl,hlive,hd,h⟩ := of_checkChain_step hend h
    obtain ⟨⟨m,rfl⟩,hle,hfollow⟩ := ih k (Nat.lt_succ_self k) h
    refine ⟨⟨1+m,by rw [Store.tick_tick]⟩,by omega,fun s₁ hh hp b hb => ?_⟩
    have hfit : r.2.take (totalLen-b.length) = r.2 := List.take_of_length_le (by omega)
    obtain ⟨out,m',hrun,hlen⟩ := hfollow (s₁.tick .read 1) (hh.tick _ _) hp (b++r.2) (by simp [hb])
    refine ⟨out,1+m',?_,hlen⟩
    rw [← hp] at hlive hd
    unfold followChain
    rw [if_neg hend]
    simp only
    rw [Prog.bind_ok (wrap_ok (readPage_ok hlive (hh ..))),Prog.bind_ok (codec_ok hd _)]
    simp only [hfit]
    rw [hrun,Store.tick_tick]

lemma of_checkOverflowChain {ref : LeafValueRef}
    (h : checkOverflowChain pc vs ref s = (.ok vs',s')) : ∃ m, s' = s.tick .read m := by
  unfold checkOverflowChain at h
  split at h
  · exact (of_checkChain h).1
  · obtain ⟨-,rfl⟩ := Prog.of_pure_ok h
    exact ⟨0,by simp⟩

lemma of_checkBound {pageID : ℕ} {keys : List Key}
    (h : checkBound pageID prevKey keys s = (.ok (),s')) : s' = s := by
  unfold checkBound at h
  split at h
  · split at h
    · cases h
    · exact (Prog.of_pure_ok h).2.symm
  · exact (Prog.of_pure_ok h).2.symm

lemma of_foldlM {α β : Type} {f : β → α → Cmd β}
    (hf : ∀ a b s b' s', f b a s = (.ok b',s') → ∃ m, s' = s.tick .read m) {l : List α} {b b' : β}
    (h : l.foldlM f b s = (.ok b',s')) :
    (∃ m, s' = s.tick .read m) ∧ ∀ a ∈ l, ∃ b₁ m b₂ s₂, f b₁ a (s.tick .read m) = (.ok b₂,s₂) := by
  induction l generalizing s b with
  | nil =>
    obtain ⟨-,rfl⟩ := Prog.of_pure_ok h
    exact ⟨⟨0,by simp⟩,fun a ha => nomatch ha⟩
  | cons x l ih =>
    rw [List.foldlM_cons] at h
    obtain ⟨b₁,s₁,hx,h⟩ := Prog.of_bind_ok h
    obtain ⟨m,rfl⟩ := hf _ _ _ _ _ hx
    obtain ⟨⟨m',rfl⟩,hl⟩ := ih h
    refine ⟨⟨m+m',by rw [Store.tick_tick]⟩,fun a ha => ?_⟩
    cases List.mem_cons.mp ha with
    | inl he => exact ⟨b,0,b₁,_,by rw [he,Store.tick_zero]; exact hx⟩
    | inr hm =>
      obtain ⟨b₂,m₂,b₃,s₃,hrun⟩ := hl a hm
      exact ⟨b₂,m+m₂,b₃,s₃,by rw [← Store.tick_tick]; exact hrun⟩

lemma of_checkLeaf {pageID : ℕ} {body : Bytes}
    (h : checkLeaf pc pageID prevKey vs body s = (.ok vs',s')) :
    (∃ m, s' = s.tick .read m) ∧ ∃ keys refs next, decodeLeafNodeRefs body = .ok (keys,refs,next) ∧
      keys.Pairwise (· < ·) ∧
      ∀ ref ∈ refs, ∃ vs₁ m vs₂ s₂, checkOverflowChain pc vs₁ ref (s.tick .read m) = (.ok vs₂,s₂) := by
  obtain ⟨⟨keys,refs,next⟩,s₁,hdec,h₁⟩ := Prog.of_bind_ok h
  obtain ⟨_,s₂,hsort,h₂⟩ := Prog.of_bind_ok h₁
  obtain ⟨_,s₃,hbound,h₃⟩ := Prog.of_bind_ok h₂
  obtain ⟨vs₁,s₄,hfold,h₄⟩ := Prog.of_bind_ok h₃
  obtain ⟨hd,rfl⟩ := of_mapError hdec
  obtain ⟨hsorted,rfl⟩ := of_checkSorted hsort
  obtain rfl := of_checkBound hbound
  obtain ⟨⟨m,rfl⟩,hrefs⟩ := of_foldlM (fun _ _ _ _ _ => of_checkOverflowChain) hfold
  split at h₄
  · cases h₄
  · obtain ⟨-,rfl⟩ := Prog.of_pure_ok h₄
    exact ⟨⟨m,rfl⟩,keys,refs,next,hd,hsorted,hrefs⟩

lemma decodeInternalNode_length {body : Bytes} {ptrs : List ℕ} {ks : List Key}
    (h : decodeInternalNode body = .ok (ptrs,ks)) : ptrs.length = ks.length+1 := by
  unfold decodeInternalNode at h
  split at h
  · cases h
  split at h
  · cases h
  simp only at h
  split at h
  · cases h
  obtain ⟨slots,-,h⟩ := Fallible.bind_eq_ok.mp h
  obtain ⟨rfl,rfl⟩ := Prod.mk.inj (Except.ok.inj h)
  simp

lemma of_checkNode_succ {n pageID : ℕ} (h : checkNode pc (n+1) pageID prevKey vs s = (.ok vs',s')) :
    s.pages.Live pageID ∧
      (((s.pages.view pageID).headD 0 = nodeTypeLeaf ∧
          checkLeaf pc pageID prevKey (pageID::vs) (s.pages.view pageID) (s.tick .read 1) = (.ok vs',s')) ∨
        ∃ ptrs ks, decodeInternalNode (s.pages.view pageID) = .ok (ptrs,ks) ∧ ks.Pairwise (· < ·) ∧
          (ptrs.zip (none::ks.map some)).foldlM
            (fun visited child => checkNode pc n child.1 child.2 visited) (pageID::vs)
              (s.tick .read 1) = (.ok vs',s')) := by
  rw [checkNode] at h
  split at h
  · cases h
  split at h
  · cases h
  obtain ⟨body,s₁,hread,h₁⟩ := Prog.of_bind_ok h
  obtain ⟨hlive,rfl,rfl⟩ := of_readPage (of_wrap_ok hread)
  refine ⟨hlive,?_⟩
  split at h₁
  · exact .inl ⟨‹_›,h₁⟩
  split at h₁
  · obtain ⟨⟨ptrs,ks⟩,s₂,hdec,h₂⟩ := Prog.of_bind_ok h₁
    obtain ⟨_,s₃,hsort,h₃⟩ := Prog.of_bind_ok h₂
    obtain ⟨hd,rfl⟩ := of_mapError hdec
    obtain ⟨hsorted,rfl⟩ := of_checkSorted hsort
    exact .inr ⟨ptrs,ks,hd,hsorted,h₃⟩
  · cases h₁

lemma of_checkNode {n pageID : ℕ}
    (h : checkNode pc n pageID prevKey vs s = (.ok vs',s')) : ∃ m, s' = s.tick .read m := by
  induction n generalizing s s' pageID prevKey vs vs' with
  | zero => cases h
  | succ n ih =>
    obtain ⟨-,⟨-,hleaf⟩ | ⟨ptrs,ks,-,-,hfold⟩⟩ := of_checkNode_succ h
    · obtain ⟨⟨m,rfl⟩,-⟩ := of_checkLeaf hleaf
      exact ⟨1+m,by rw [Store.tick_tick]⟩
    · obtain ⟨⟨m,rfl⟩,-⟩ := of_foldlM (fun _ _ _ _ _ => ih) hfold
      exact ⟨1+m,by rw [Store.tick_tick]⟩

end Accepted

/-- Some call of `checkNode` with this fuel accepted the page. -/
def Accepts (pc n : ℕ) (p : PageStore) (id : ℕ) : Prop :=
  ∃ (s : Store) (prevKey : Option Key) (vs vs' : List ℕ) (s' : Store), s.pages = p ∧
    checkNode pc n id prevKey vs s = (.ok vs',s')

/-- The checks a leaf has passed. -/
structure LeafPassed (pc : ℕ) (p : PageStore) (id : ℕ) (keys : List Key) (refs : List LeafValueRef)
    (next : ℕ) :
    Prop where
  decode : decodeLeafNodeRefs (p.view id) = .ok (keys,refs,next)
  sorted : keys.Pairwise (· < ·)
  chains : ∀ ref ∈ refs, ∃ (s : Store) (vs vs' : List ℕ) (s' : Store), s.pages = p ∧
    checkOverflowChain pc vs ref s = (.ok vs',s')

/-- An accepted page is a leaf that passed, or an inner node with accepted children. -/
theorem Accepts.cases {pc n : ℕ} {p : PageStore} {id : ℕ} (h : Accepts pc n p id) :
    p.Live id ∧ ∃ k, n = k+1 ∧ ((∃ keys refs next, LeafPassed pc p id keys refs next) ∨
      ∃ ptrs ks, decodeInternalNode (p.view id) = .ok (ptrs,ks) ∧ ks.Pairwise (· < ·) ∧
        ∀ child ∈ ptrs, Accepts pc k p child) := by
  obtain ⟨s,prevKey,vs,vs',s',rfl,h⟩ := h
  cases n with
  | zero => cases h
  | succ n =>
    obtain ⟨hlive,hcase⟩ := of_checkNode_succ h
    refine ⟨hlive,n,rfl,?_⟩
    obtain ⟨-,hleaf⟩ | ⟨ptrs,ks,hd,hs,hfold⟩ := hcase
    · obtain ⟨-,keys,refs,next,hd,hs,hrefs⟩ := of_checkLeaf hleaf
      refine .inl ⟨keys,refs,next,hd,hs,fun ref hr => ?_⟩
      obtain ⟨vs₁,m,vs₂,s₂,hrun⟩ := hrefs ref hr
      exact ⟨(s.tick .read 1).tick .read m,vs₁,vs₂,s₂,rfl,hrun⟩
    · refine .inr ⟨ptrs,ks,hd,hs,fun child hc => ?_⟩
      obtain ⟨-,hkids⟩ := of_foldlM (fun _ _ _ _ _ => of_checkNode) hfold
      have hfst : (ptrs.zip (none::ks.map some)).map Prod.fst = ptrs :=
        List.map_fst_zip (by simp [decodeInternalNode_length hd])
      rw [← hfst] at hc
      obtain ⟨⟨a,prev⟩,hmem,rfl⟩ := List.mem_map.mp hc
      obtain ⟨vs₁,m,vs₂,s₂,hrun⟩ := hkids _ hmem
      exact ⟨(s.tick .read 1).tick .read m,prev,vs₁,vs₂,s₂,rfl,hrun⟩

/-- A value that fills its slot, or its slot and all its overflow pages, to the last byte. -/
def Whole (v : Bytes) : Prop := v.length ≤ maxValSize ∨ (v.length-504)%overflowChunkSize = 0

instance (v : Bytes) : Decidable (Whole v) := by unfold Whole; infer_instance

lemma whole_iff {v : Bytes} (hlong : maxValSize < v.length) :
    Whole v ↔ 504+numOverflow v*overflowChunkSize = v.length := by
  simp only [Whole,numOverflow,maxValSize,overflowChunkSize] at hlong ⊢
  omega

section Chain
variable {s s' : Store} {pc : ℕ}

lemma chunk_length (rest : Bytes) :
    (padTo overflowChunkSize (rest.take overflowChunkSize)).length = overflowChunkSize := by
  rw [padTo_length,List.length_take]
  omega

lemma chain_head {p : PageStore} (hs : Sound p) {v : Bytes} {ids : List ℕ} (hlong : maxValSize < v.length)
    (hcount : ids.length = numOverflow v) (hl : ∀ id ∈ ids, p.Live id) :
    ids.headD 0%256^8 = ids.headD rootSentinel := by
  obtain ⟨a,as,rfl⟩ : ∃ a as, ids = a::as :=
    List.exists_cons_of_length_pos (by rw [hcount]; exact numOverflow_pos hlong)
  exact Nat.mod_eq_of_lt (hs.live_lt_word (hl a List.mem_cons_self))

lemma chain_total (hi : s.pages.txn = none) {ids vs vs' : List ℕ} {rest : Bytes} {totalLen n bufLen : ℕ}
    (hc : Chained s.pages.body ids rest) (hend : ∀ id ∈ ids, ¬(id = rootSentinel ∨ id = 0))
    (h : checkChain totalLen pc n (ids.headD rootSentinel) bufLen vs s = (.ok vs',s')) :
    bufLen+ids.length*overflowChunkSize = totalLen := by
  induction ids generalizing s rest n bufLen vs with
  | nil =>
    obtain ⟨-,rfl⟩ := of_checkChain_end (.inl rfl) h
    simp
  | cons id ids ih =>
    obtain ⟨hd,hc⟩ := hc
    obtain ⟨k,r,-,-,hr,h₁⟩ := of_checkChain_step (hend id (List.mem_cons_self ..)) h
    rw [view_idle hi,hd] at hr
    obtain rfl := Except.ok.inj hr
    have hlen := ih (s := s.tick .read 1) hi hc (fun i hm => hend i (List.mem_cons_of_mem _ hm)) h₁
    rw [chunk_length] at hlen
    rw [List.length_cons,Nat.succ_mul]
    omega

lemma checkChain_run (hh : s.Healthy) (hs : Sound s.pages) {ids : List ℕ} {rest : Bytes} {n : ℕ}
    (bufLen : ℕ)
    (vs : List ℕ)
    (hc : Chained s.pages.body ids rest) (hl : ∀ id ∈ ids, s.pages.Live id) (hn : ids.length ≤ n)
    (hnd : ids.Nodup) (hvs : ∀ id ∈ ids, id ∉ vs) :
    checkChain (bufLen+ids.length*overflowChunkSize) s.pages.pageCount n
      (ids.headD rootSentinel) bufLen vs s =
      (.ok (ids.reverse++vs),s.tick .read ids.length) := by
  induction ids generalizing s rest n bufLen vs with
  | nil =>
    unfold checkChain
    simp
  | cons id ids ih =>
    obtain ⟨hd,hc⟩ := hc
    obtain ⟨n,rfl⟩ : ∃ m, n = m+1 := ⟨n-1,by simp at hn; omega⟩
    obtain ⟨hnot,hnd⟩ := List.nodup_cons.mp hnd
    have hid := hl id (List.mem_cons_self ..)
    unfold checkChain
    rw [List.headD_cons,if_neg (hs.not_end hid)]
    simp only
    rw [if_neg (not_le.mpr hid.2.1),if_neg (hvs id (List.mem_cons_self ..)),
      Prog.bind_ok (wrap_ok (readPage_ok hid (hh ..))),view_idle hs.idle,Prog.bind_ok (codec_ok hd _)]
    simp only [chunk_length]
    have hrest := ih (s := s.tick .read 1) (hh.tick _ _) hs (n := n) (bufLen+overflowChunkSize)
      (id::vs) hc (fun i hm => hl i (List.mem_cons_of_mem _ hm)) (by simpa using hn) hnd fun i hm he => by
        cases List.mem_cons.mp he with
        | inl he => exact hnot (he ▸ hm)
        | inr he => exact hvs i (List.mem_cons_of_mem _ hm) he
    have htotal : bufLen+(id::ids).length*overflowChunkSize =
      bufLen+overflowChunkSize+ids.length*overflowChunkSize := by
      rw [List.length_cons,Nat.succ_mul]
      omega
    rw [htotal]
    refine hrest.trans ?_
    rw [Store.tick_tick,List.length_cons,Nat.add_comm 1]
    simp

end Chain

/-- A part of a stored tree, as `checkNode` meets it. -/
structure Laid (p : PageStore) {h : ℕ} (t : Tree Key Slot h) : Prop where
  inner : ∀ n ∈ inners h t, p.Live n.id ∧ decodeInternalNode (p.body n.id) = .ok (n.kids,n.keys)
  leaf : ∀ l ∈ leaves h t, p.Live l.id ∧ ∃ nx, (nx = rootSentinel ∨ nx < p.pageCount) ∧
    decodeLeafNodeRefs (p.body l.id) = .ok (l.entries.map Prod.fst,l.entries.map (fun e => e.2.ref),nx)
  slot : ∀ e ∈ entries h t, e.2.Stored p.body ∧ ∀ id ∈ e.2.pages, p.Live id
  ordered : Ordered h t
  nodup : (pagesOf t).Nodup

lemma LeafRun.next_lt {p : PageStore} {ls : List (Leaf Key Slot)} (h : LeafRun p.body rootSentinel ls)
    (hlive : ∀ l ∈ ls, p.Live l.id) {l : Leaf Key Slot} (hl : l ∈ ls) :
    ∃ nx, (nx = rootSentinel ∨ nx < p.pageCount) ∧
      decodeLeafNodeRefs (p.body l.id) =
        .ok (l.entries.map Prod.fst,l.entries.map (fun e => e.2.ref),nx) := by
  obtain ⟨as,bs,rfl⟩ := List.append_of_mem hl
  refine ⟨_,?_,((leafRun_append as (l::bs)).mp h).2.1⟩
  cases bs with
  | nil => exact .inl rfl
  | cons b bs => exact .inr (hlive b (by simp)).2.1

section Tree
variable {p : PageStore} {h : ℕ}

lemma Rooted.laid {t : Tree Key Slot h} (ht : Rooted p t) : Laid p t where
  inner n hn := ⟨(ht.live _ (inner_mem_pagesOf hn)).1,ht.holds.inner n hn⟩
  leaf _ hl := ⟨(ht.live _ (leaf_mem_pagesOf hl)).1,ht.holds.leaf.next_lt
    (fun _ hm => (ht.live _ (leaf_mem_pagesOf hm)).1) hl⟩
  slot e he := ⟨ht.holds.slot e he,fun id hid => (ht.live id (overflow_mem_pagesOf he hid)).1⟩
  ordered := ht.ordered
  nodup := ht.nodup

lemma pagesOf_node (n : BPlus.Inner Key (Tree Key Slot h)) :
    (pagesOf (.node n)).Perm (n.id::n.kids.flatMap pagesOf) := by
  refine List.perm_iff_count.mpr fun x => ?_
  have hkids : ∀ us : List (Tree Key Slot h), List.count x (us.flatMap pagesOf) =
      List.count x ((us.flatMap (leaves h)).map Leaf.id)+List.count x
        ((us.flatMap (inners h)).map Inner.id)+
        List.count x (overflowPages ((us.flatMap (leaves h)).flatMap Leaf.entries)) := fun us => by
    induction us with
    | nil => simp
    | cons u us ih =>
      simp only [List.flatMap_cons,List.flatMap_append,List.map_append,List.count_append,
        overflowPages_append,ih,
        pagesOf,ids,entries]
      omega
  rw [List.count_cons,hkids]
  simp only [pagesOf,ids,entries,leaves_node,inners_node,List.map_cons,List.count_append,List.count_cons]
  change _+(_+if n.id == x then 1 else 0)+_ = _
  omega

lemma Laid.kid {n : BPlus.Inner Key (Tree Key Slot h)} (ht : Laid p (.node n)) {u : Tree Key Slot h}
    (hu : u ∈ n.kids) : Laid p u where
  inner m hm := ht.inner m (List.mem_cons_of_mem _ (List.mem_flatMap.mpr ⟨u,hu,hm⟩))
  leaf l hl := ht.leaf l (List.mem_flatMap.mpr ⟨u,hu,hl⟩)
  slot e he := by
    obtain ⟨l,hl,he⟩ := List.mem_flatMap.mp he
    exact ht.slot e (List.mem_flatMap.mpr ⟨l,List.mem_flatMap.mpr ⟨u,hu,hl⟩,he⟩)
  ordered := ht.ordered.sublist (sublist_weave n.keys _ (by simpa using n.fit) _ (List.mem_map_of_mem hu))
  nodup := by
    have hnd := (List.nodup_cons.mp ((pagesOf_node n).nodup_iff.mp ht.nodup)).2
    exact (List.nodup_flatMap.mp hnd).1 u hu

theorem Accepts.whole {pc n : ℕ} (hs : Sound p) {t : Tree Key Slot h} (ht : Laid p t)
    (ha : Accepts pc n p (rootId h t)) : ∀ e ∈ entries h t, Whole e.2.value := by
  induction h generalizing n with
  | zero =>
    obtain ⟨-,nx,-,hd⟩ := ht.leaf t.toLeaf (List.mem_singleton_self _)
    obtain ⟨-,k,-,⟨keys,refs,next,hpass⟩ | ⟨ptrs,ks,hd',-⟩⟩ := ha.cases
    · intro e he
      have hrefs : refs = t.toLeaf.entries.map (fun e => e.2.ref) := by
        have hdec := hpass.decode
        rw [view_idle hs.idle] at hdec
        change decodeLeafNodeRefs (p.body t.toLeaf.id) = _ at hdec
        rw [hd] at hdec
        exact (Prod.mk.inj (Prod.mk.inj (Except.ok.inj hdec)).2).1.symm
      have hmem : e ∈ t.toLeaf.entries := by simpa [entries,leaves] using he
      obtain ⟨s,vs,vs',s',rfl,hrun⟩ :=
        hpass.chains e.2.ref (hrefs ▸ List.mem_map_of_mem (f := fun e => e.2.ref) hmem)
      obtain ⟨hst,hlive⟩ := ht.slot e he
      cases hv : e.2 with
      | inline v hshort => exact .inl hshort
      | overflow v ids hlong hsz hcount =>
        rw [hv] at hst hlive hrun
        rw [Slot.ref_overflow,checkOverflowChain,if_pos rfl] at hrun
        simp only [chain_head hs hlong hcount hlive] at hrun
        have htotal := chain_total hs.idle hst (fun id hid => hs.not_end (hlive id hid)) hrun
        refine (whole_iff hlong).mpr ?_
        rw [← hcount,← htotal,List.length_take]
        simp only [maxValSize] at hlong
        omega
    · rw [view_idle hs.idle] at hd'
      change decodeInternalNode (p.body t.toLeaf.id) = _ at hd'
      have h1 := (decodeLeafNodeRefs_type hd).2
      rw [(decodeInternalNode_type hd').2] at h1
      exact absurd h1 (by decide)
  | succ h ih =>
    rw [← t.node_toInner] at ht ha ⊢
    generalize t.toInner = m at ht ha ⊢
    obtain ⟨-,hd⟩ := ht.inner (m.map (rootId h)) (List.mem_cons_self ..)
    change decodeInternalNode (p.body m.id) = .ok (m.kids.map (rootId h),m.keys) at hd
    obtain ⟨-,k,-,⟨keys,refs,next,hpass⟩ | ⟨ptrs,ks,hd',-,hkids⟩⟩ := ha.cases
    · have h1 := (decodeLeafNodeRefs_type hpass.decode).2
      rw [view_idle hs.idle] at h1
      change (p.body m.id).headD 0 = _ at h1
      rw [(decodeInternalNode_type hd).2] at h1
      exact absurd h1 (by decide)
    · rw [view_idle hs.idle] at hd'
      change decodeInternalNode (p.body m.id) = _ at hd'
      rw [hd] at hd'
      obtain ⟨rfl,rfl⟩ := Prod.mk.inj (Except.ok.inj hd')
      intro e he
      obtain ⟨l,hl,he⟩ := List.mem_flatMap.mp he
      obtain ⟨u,hu,hl⟩ := List.mem_flatMap.mp hl
      exact ih (ht.kid hu) (hkids _ (List.mem_map_of_mem hu)) e (List.mem_flatMap.mpr ⟨l,hl,he⟩)

end Tree

/-- A part of the check that marks these pages as visited, and no others. -/
def Visits (p : PageStore) (x : List ℕ → Cmd (List ℕ)) (ids : List ℕ) : Prop :=
  ∀ (s : Store) (vs : List ℕ), s.pages = p → s.Healthy → (∀ id ∈ ids, id ∉ vs) →
    ∃ vs' m, x vs s = (.ok vs',s.tick .read m) ∧ ∀ id ∈ vs', id ∈ ids ∨ id ∈ vs

section Passes
variable {p : PageStore}

lemma Visits.foldlM {α : Type} {f : List ℕ → α → Cmd (List ℕ)} {l : List α} {pages : α → List ℕ}
    (h : ∀ a ∈ l, Visits p (f · a) (pages a)) (hnd : (l.flatMap pages).Nodup) :
    Visits p (fun vs => l.foldlM f vs) (l.flatMap pages) := by
  intro s vs hp hh hvs
  induction l generalizing s vs with
  | nil => exact ⟨vs,0,by simp,fun id hid => .inr hid⟩
  | cons a l ih =>
    rw [List.flatMap_cons] at hnd hvs ⊢
    obtain ⟨-,hnd,hcross⟩ := List.nodup_append.mp hnd
    obtain ⟨vs₁,m₁,hfirst,hsub₁⟩ :=
      h a List.mem_cons_self s vs hp hh fun id hid => hvs id (List.mem_append_left _ hid)
    obtain ⟨vs₂,m₂,hrest,hsub₂⟩ :=
      ih (fun x hx => h x (List.mem_cons_of_mem _ hx)) hnd (s.tick .read m₁) vs₁ hp
      (hh.tick _ _) fun id hid hm =>
        (hsub₁ id hm).elim (fun hm => hcross id hm id hid rfl) (hvs id (List.mem_append_right _ hid))
    refine ⟨vs₂,m₁+m₂,?_,fun id hid => ?_⟩
    · change (f vs a >>= fun vs => l.foldlM f vs) s = _
      refine (Prog.bind_ok hfirst).trans (hrest.trans ?_)
      rw [Store.tick_tick]
    · rw [List.mem_append]
      cases hsub₂ id hid with
      | inl hm => exact .inl (.inr hm)
      | inr hm => exact (hsub₁ id hm).imp_left .inl

lemma Visits.page {x y : List ℕ → Cmd (List ℕ)} {id : ℕ} {ids : List ℕ} (h : Visits p x ids)
    (hnot : id ∉ ids)
    (hy : ∀ (s : Store) vs, s.pages = p → s.Healthy → id ∉ vs → y vs s = x (id::vs) (s.tick .read 1)) :
    Visits p y (id::ids) := by
  intro s vs hp hh hvs
  obtain ⟨hid,hvs⟩ := List.forall_mem_cons.mp hvs
  obtain ⟨vs',m,hrun,hsub⟩ := h (s.tick .read 1) (id::vs) hp (hh.tick _ _) fun i hi hm =>
    (List.mem_cons.mp hm).elim (fun he => hnot (he ▸ hi)) (hvs i hi)
  refine ⟨vs',1+m,by rw [hy s vs hp hh hid,hrun,Store.tick_tick],fun i hi => ?_⟩
  have hm := hsub i hi
  rw [List.mem_cons] at hm ⊢
  tauto

variable (hs : Sound p)
include hs

lemma visits_chain {e : Slot} (hst : e.Stored p.body) (hl : ∀ id ∈ e.pages, p.Live id)
    (hnd : e.pages.Nodup)
    (hw : Whole e.value) : Visits p (checkOverflowChain p.pageCount · e.ref) e.pages := by
  rintro s vs rfl hh hvs
  refine ⟨e.pages.reverse++vs,e.pages.length,?_,by simp⟩
  beta_reduce
  cases e with
  | inline v hshort =>
    rw [Slot.ref_inline]
    simp [checkOverflowChain,Slot.pages]
  | overflow v ids hlong hsz hcount =>
    have hrun := checkChain_run (n := maxOverflowChainLen) hh hs 504 vs hst hl
      (hcount ▸ numOverflow_le hsz) hnd hvs
    rw [hcount,(whole_iff hlong).mp hw] at hrun
    have h504 : (v.take 504).length = 504 := by
      rw [List.length_take]
      simp only [maxValSize] at hlong
      omega
    rw [Slot.ref_overflow,checkOverflowChain,if_pos rfl]
    simp only [chain_head hs hlong hcount hl,h504]
    rw [hrun,← hcount]
    rfl

omit hs in
lemma checkBound_ok {s : Store} {pageID : ℕ} {prevKey : Option Key} {keys : List Key}
    (h : ∀ sep ∈ prevKey, ∀ k ∈ keys, sep ≤ k) : checkBound pageID prevKey keys s = (.ok (),s) := by
  unfold checkBound
  split
  · rw [if_neg (not_lt.mpr (h _ rfl _ List.mem_cons_self))]
    rfl
  · rfl

lemma visits_leaf {l : Leaf Key Slot} {nx : ℕ} (prevKey : Option Key) {body : Bytes}
    (hd : decodeLeafNodeRefs body = .ok (l.entries.map Prod.fst,l.entries.map (fun e => e.2.ref),nx))
    (hnx : nx = rootSentinel ∨ nx < p.pageCount) (ht : ((l.entries).map Prod.fst).Pairwise (· < ·))
    (hprev : ∀ sep ∈ prevKey, ∀ k ∈ l.entries.map Prod.fst, sep ≤ k)
    (hst : ∀ e ∈ l.entries, e.2.Stored p.body ∧ ∀ id ∈ e.2.pages, p.Live id)
    (hnd : (overflowPages l.entries).Nodup) (hw : ∀ e ∈ l.entries, Whole e.2.value) :
    Visits p (checkLeaf p.pageCount l.id prevKey · body) (overflowPages l.entries) := by
  have hslots := Visits.foldlM (f := fun vs e => checkOverflowChain p.pageCount vs e.2.ref) (fun e he =>
    visits_chain hs (hst e he).1 (hst e he).2 ((List.nodup_flatMap.mp hnd).1 e he) (hw e he)) hnd
  intro s vs hp hh hvs
  obtain ⟨vs',m,hrun,hsub⟩ := hslots s vs hp hh hvs
  refine ⟨vs',m,?_,hsub⟩
  have hdec : codec ((decodeLeafNodeRefs body).mapError (corrupt l.id)) s =
      (.ok (l.entries.map Prod.fst,l.entries.map (fun e => e.2.ref),nx),s) := codec_ok (by rw [hd]; rfl) s
  refine (Prog.bind_ok hdec).trans ?_
  simp only [List.foldlM_map]
  rw [Prog.bind_ok (checkSorted_ok ht s),Prog.bind_ok (checkBound_ok hprev),Prog.bind_ok hrun,if_neg (by
    rintro ⟨h1,-,h3⟩
    cases hnx with
    | inl h => exact h1 h
    | inr h => exact absurd h3 (not_le.mpr h))]
  rfl

end Passes

lemma bound_weaveR {ks : List Key} {cs : List (List (Item Key))} (hlen : cs.length = ks.length)
    (h : (weaveR ks cs).Pairwise Item.Before) :
    List.Forall₂ (fun c k => ∀ i ∈ c, k ≤ i.val) cs ks := by
  induction ks generalizing cs with
  | nil =>
    obtain rfl := List.length_eq_zero_iff.mp hlen
    exact .nil
  | cons k ks ih =>
    cases cs with
    | nil => simp at hlen
    | cons c cs =>
      rw [weaveR,List.pairwise_cons] at h
      refine .cons (fun i hi => ?_) (ih (by simpa using hlen) (List.pairwise_append.mp h.2).2.1)
      have hb := h.1 i (List.mem_append_left _ hi)
      cases i with
      | key a => exact hb
      | sep a => exact le_of_lt hb

/-- `checkNode` with this fuel accepts the tree, whatever it has visited elsewhere. -/
def Passes (n : ℕ) {h : ℕ} (t : Tree Key Slot h) : Prop :=
  ∀ (s : Store) (prevKey : Option Key) (vs : List ℕ), s.Healthy → Sound s.pages → Laid s.pages t →
    (∀ sep ∈ prevKey, ∀ i ∈ items h t, sep ≤ i.val) → (∀ id ∈ pagesOf t, id ∉ vs) →
    ∃ vs' m, checkNode s.pages.pageCount n (rootId h t) prevKey vs s = (.ok vs',s.tick .read m) ∧
      ∀ id ∈ vs', id ∈ pagesOf t ∨ id ∈ vs

lemma visits_kids {n h : ℕ} {p : PageStore} (hs : Sound p) {us : List (Tree Key Slot h)}
    {prevs : List (Option Key)} (hpass : ∀ u ∈ us, Passes n u) (hlaid : ∀ u ∈ us, Laid p u)
    (hbound : List.Forall₂ (fun u prev => ∀ sep ∈ prev, ∀ i ∈ items h u, sep ≤ i.val) us prevs)
    (hnd : (us.flatMap pagesOf).Nodup) :
    Visits p (fun vs => ((us.map (rootId h)).zip prevs).foldlM
      (fun visited child => checkNode p.pageCount n child.1 child.2 visited) vs) (us.flatMap pagesOf) := by
  obtain ⟨hlen,hbound⟩ := List.forall₂_iff_zip.mp hbound
  have hfst : (us.zip prevs).flatMap (fun x => pagesOf x.1) = us.flatMap pagesOf := by
    rw [← List.flatMap_map Prod.fst,List.map_fst_zip hlen.le]
  rw [← hfst] at hnd ⊢
  have hkids : Visits p (fun vs =>
    (us.zip prevs).foldlM (fun vs x => checkNode p.pageCount n (rootId h x.1) x.2 vs) vs) _ :=
    .foldlM (fun x hx s vs hp hh hvs => by
      have hu := (List.of_mem_zip hx).1
      subst hp
      exact hpass _ hu s _ vs hh hs (hlaid _ hu) (hbound hx) hvs) hnd
  simpa only [List.zip_map_left,List.foldlM_map,Prod.map_fst,Prod.map_snd,id] using hkids

theorem checkNode_ok {h : ℕ} {t : Tree Key Slot h} {n : ℕ} (hn : h < n)
    (hw : ∀ e ∈ entries h t, Whole e.2.value) : Passes n t := by
  induction h generalizing n with
  | zero =>
    intro s prevKey vs hh hs ht hprev hvs
    obtain ⟨n,rfl⟩ : ∃ m, n = m+1 := ⟨n-1,by omega⟩
    obtain ⟨hlive,nx,hnx,hd⟩ := ht.leaf t.toLeaf (List.mem_singleton_self _)
    have hents : entries 0 t = t.toLeaf.entries := by simp [entries,leaves]
    have hpages : pagesOf t = t.toLeaf.id::overflowPages t.toLeaf.entries := by
      simp [pagesOf,hents,ids,leaves,inners]
    have hnd := ht.nodup
    rw [hpages] at hnd hvs ⊢
    rw [hents] at hw
    obtain ⟨hnot,hnd⟩ := List.nodup_cons.mp hnd
    have hsort := ht.ordered.entries
    rw [hents] at hsort
    refine (visits_leaf hs prevKey hd hnx hsort (fun sep hsep k hk => ?_) (fun e he =>
      ht.slot e (hents ▸ he)) hnd hw).page
      (y := checkNode s.pages.pageCount (n+1) t.toLeaf.id prevKey) hnot (fun s' vs hp hh hid =>
        ?_) s vs rfl hh hvs
    · obtain ⟨e,he,rfl⟩ := List.mem_map.mp hk
      exact hprev sep hsep _ (key_mem_items (hents ▸ he))
    · rw [← hp] at hlive hd hs ⊢
      rw [checkNode,if_neg (not_le.mpr hlive.2.1),if_neg hid,
        Prog.bind_ok (wrap_ok (readPage_ok hlive (hh ..))),view_idle hs.idle,
        if_pos (decodeLeafNodeRefs_type hd).2]
  | succ h ih =>
    intro s prevKey vs hh hs ht hprev hvs
    obtain ⟨n,rfl⟩ : ∃ m, n = m+1 := ⟨n-1,by omega⟩
    rw [← t.node_toInner] at ht hw hvs ⊢
    generalize t.toInner = m at ht hw hvs ⊢
    obtain ⟨hlive,hd⟩ := ht.inner (m.map (rootId h)) List.mem_cons_self
    change s.pages.Live m.id at hlive
    change decodeInternalNode (s.pages.body m.id) = .ok (m.kids.map (rootId h),m.keys) at hd
    have hperm := pagesOf_node m
    obtain ⟨hnot,hnd⟩ := List.nodup_cons.mp (hperm.nodup_iff.mp ht.nodup)
    have hkeys : m.keys.Pairwise (· < ·) := ht.ordered.inner_keys (m.map (rootId h)) List.mem_cons_self
    have hbound : List.Forall₂ (fun u prev => ∀ sep ∈ prev, ∀ i ∈ items h u, sep ≤ i.val) m.kids
        (none::m.keys.map some) := by
      have hord := ht.ordered
      rw [Ordered,items_node] at hord
      have hfit := m.fit
      cases hk : m.kids with
      | nil => simp [hk] at hfit
      | cons u us =>
        rw [hk,List.map_cons,weave] at hord
        rw [hk] at hfit
        have hb := bound_weaveR (by simpa using hfit) (List.pairwise_append.mp hord).2.1
        refine .cons (by simp) ?_
        rw [List.forall₂_map_right_iff]
        rw [List.forall₂_map_left_iff] at hb
        exact hb.imp fun u k hx sep hsep i hi => Option.mem_some.mp hsep ▸ hx i hi
    have hkids := visits_kids (n := n) hs (fun u hu => ih (by omega) fun e he => hw e (by
      obtain ⟨l,hl,he⟩ := List.mem_flatMap.mp he
      exact List.mem_flatMap.mpr ⟨l,List.mem_flatMap.mpr ⟨u,hu,hl⟩,he⟩)) (fun u hu => ht.kid hu) hbound hnd
    simp only [hperm.mem_iff] at hvs ⊢
    refine hkids.page (y := checkNode s.pages.pageCount (n+1) m.id prevKey) hnot
      (fun s' vs hp hh hid => ?_) s vs rfl hh hvs
    rw [← hp] at hlive hd hs ⊢
    have hty := (decodeInternalNode_type hd).2
    have hdec : codec ((decodeInternalNode (s'.pages.body m.id)).mapError (corrupt m.id))
      (s'.tick .read 1) =
        (.ok (m.kids.map (rootId h),m.keys),s'.tick .read 1) := codec_ok (by rw [hd]; rfl) _
    rw [checkNode,if_neg (not_le.mpr hlive.2.1),if_neg hid,
      Prog.bind_ok (wrap_ok (readPage_ok hlive (hh ..))),view_idle hs.idle,
      if_neg (by rw [hty]; decide),if_pos hty,Prog.bind_ok hdec]
    simp only
    rw [Prog.bind_ok (checkSorted_ok hkeys _)]

/-- Every value that a scan lists is whole. -/
def Store.AllWhole (s : Store) : Prop := ∃ es, (scan [] [] s).1 = .ok es ∧ ∀ e ∈ es, Whole e.2

lemma Good.allWhole_iff {o : Root} (hg : Good s o) :
    s.AllWhole ↔ ∀ e ∈ o.contents, Whole e.2.value := by
  rw [Store.AllWhole,hg.scan,scanned_all]
  constructor
  · rintro ⟨es,he,h⟩ e hm
    obtain rfl := Except.ok.inj he
    exact h _ (List.mem_map_of_mem hm)
  · refine fun h => ⟨_,rfl,fun a ha => ?_⟩
    obtain ⟨e,he,rfl⟩ := List.mem_map.mp ha
    exact h e he

lemma check_empty (ho : s.Opened) (hroot : s.rootPageID = rootSentinel) :
    check s = (.ok (),s) := by
  rw [check,Prog.bind_ok (checkOpen_ok ho),Prog.bind_ok (Prog.get_run s),if_pos hroot]
  rfl

lemma check_root (hh : s.Healthy) (ho : s.Opened) (hroot : s.rootPageID≠rootSentinel) :
    (check s).1 = .ok () ↔ ∃ vs s', checkNode s.pages.pageCount (s.pages.pageCount+1) s.rootPageID none []
      (s.tick .count 1) = (.ok vs,s') := by
  have hcount : wrap "kv: check page count" pageCount s = (.ok s.pages.pageCount,s.tick .count 1) :=
    wrap_ok (call_ok (hh ..) rfl)
  rw [check,Prog.bind_ok (checkOpen_ok ho),Prog.bind_ok (Prog.get_run s),if_neg hroot,Prog.bind_ok hcount,
    Prog.bind_ok (fuel_run _),Store.tick_pages]
  constructor
  · intro h
    cases hrun : checkNode s.pages.pageCount (s.pages.pageCount+1) s.rootPageID none []
      (s.tick .count 1) with
    | mk r s₁ =>
      cases r with
      | error e =>
        rw [Prog.bind_error hrun] at h
        cases h
      | ok vs => exact ⟨vs,s₁,rfl⟩
  · rintro ⟨vs,s₁,hrun⟩
    rw [Prog.bind_ok hrun]
    rfl

lemma Good.check_iff {o : Root} (hg : Good s o) : (check s).1 = .ok () ↔ s.AllWhole := by
  rw [hg.allWhole_iff]
  cases o with
  | none =>
    rw [check_empty hg.opened hg.shows.root_eq]
    exact ⟨fun _ e he => absurd he List.not_mem_nil,fun _ => rfl⟩
  | some x =>
    have ht := hg.shows.tree x rfl
    have hroot : s.rootPageID = rootId x.1 x.2 := hg.shows.root_eq
    rw [check_root hg.healthy hg.opened (hroot ▸ ht.root_ne hg.shows.sound),hroot]
    constructor
    · rintro ⟨vs,s₁,hrun⟩
      exact Accepts.whole hg.shows.sound ht.laid ⟨s.tick .count 1,none,[],vs,s₁,rfl,hrun⟩
    · intro hw
      obtain ⟨vs,m,hrun,-⟩ :=
        checkNode_ok ht.height_lt hw (s.tick .count 1) none [] hg.healthy hg.shows.sound
        ht.laid (fun sep hsep => absurd hsep (Option.not_mem_none sep)) fun id _ => List.not_mem_nil
      exact ⟨vs,_,hrun⟩

/-- `Check` accepts a store that writes have led to exactly when all values are whole. -/
theorem check_reached_iff (hs : Reached s) : (check s).1 = .ok () ↔ s.AllWhole := by
  obtain ⟨o,hg⟩ := hs.good
  exact hg.check_iff

theorem check_accepts_pair : pairStore.AllWhole ∧ (check pairStore).1 = .ok () := by
  have hwhole : pairStore.AllWhole := ⟨[([1],[2]),([3],[4])],by decide +kernel,by decide⟩
  exact ⟨hwhole,(check_reached_iff pairStore_reached).mpr hwhole⟩

/-- One value of 513 bytes is enough for `Check` to call the tree corrupt. -/
theorem check_rejects_long_value :
    ∃ s, s = (set [97] longValue freshStore).2 ∧ Reached s ∧ (set [97] longValue freshStore).1 = .ok () ∧
      (check s).1≠.ok () := by
  refine ⟨_,rfl,.step reached_fresh roomy_fresh (.set [97] longValue),?_,?_⟩
  all_goals decide +kernel

end Plomvix.KV
