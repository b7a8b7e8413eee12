import Plomvix.KV.Compact
import Plomvix.KV.Transact

/-! Freeing the pages of a tree. The traversal ends for any contents of the pages, since every
page it descends from is a page it had not visited, and it frees nothing but what the
pointers it follows can reach. -/
namespace Plomvix.KV
open Lib Pager BPlus

/-- Only pages of `S` were freed. -/
structure Freed (S : ℕ → Prop) (s s' : Store) : Prop where
  same : SameHandle s s'
  txn : s'.pages.txn = s.pages.txn
  count : s'.pages.pageCount = s.pages.pageCount
  body : ∀ id, ¬S id → s'.pages.body id = s.pages.body id
  free : ∀ id ∈ s'.pages.freeList, id ∈ s.pages.freeList ∨ S id
  live : ∀ id, s'.pages.Live id → s.pages.Live id ∧ s'.pages.body id = s.pages.body id
  sound : Sound s.pages → (∀ id, S id → id = 0 ∨ metaPageID < id) → Sound s'.pages

namespace Freed
variable {S : ℕ → Prop} {s s' s'' : Store}

lemma of_pages (h : SameHandle s s') (hp : s'.pages = s.pages) : Freed S s s' where
  same := h
  txn := by rw [hp]
  count := by rw [hp]
  body _ _ := by rw [hp]
  free _ hid := .inl (hp ▸ hid)
  live _ hl := ⟨hp ▸ hl,by rw [hp]⟩
  sound hs _ := hp.symm ▸ hs

lemma trans (h : Freed S s s') (g : Freed S s' s'') : Freed S s s'' where
  same := h.same.trans g.same
  txn := g.txn.trans h.txn
  count := g.count.trans h.count
  body id hid := (g.body id hid).trans (h.body id hid)
  free id hid := (g.free id hid).elim (h.free id) .inr
  live id hl := by
    obtain ⟨g1,g2⟩ := g.live id hl
    obtain ⟨h1,h2⟩ := h.live id g1
    exact ⟨h1,g2.trans h2⟩
  sound hs hS := g.sound (h.sound hs hS) hS

lemma keep (h : Freed S s s') {id : ℕ} (hid : ¬S id) (hl : s.pages.Live id) : s'.pages.Live id :=
  ⟨hl.1,h.count ▸ hl.2.1,fun hm => (h.free id hm).elim hl.2.2 hid⟩

end Freed

section Calls
variable {S : ℕ → Prop} {s : Store}

lemma attempt_freePage (id : ℕ) (hid : S id) :
    ∃ r s', attempt (freePage id) s = (.ok r,s') ∧ Freed S s s' ∧
      (s.Healthy → s.pages.txn = none → ¬s'.pages.Live id) ∧
      ∀ j, j≠id → s.pages.Live j → s'.pages.Live j := by
  have hstay : ∀ {t : Store}, t.pages = s.pages → ∀ j, j≠id → s.pages.Live j → t.pages.Live j :=
    fun h _ _ hl => h ▸ hl
  cases hf : s.faults .free (s.seen .free) with
  | true =>
    exact ⟨_,_,attempt_err (call_fault hf),.of_pages ⟨rfl,rfl,rfl,rfl⟩ rfl,
      fun hh => absurd (hf.symm.trans (hh ..)) (by decide),hstay rfl⟩
  | false =>
    by_cases ht : s.pages.txn.isSome
    · exact ⟨_,_,attempt_err (call_err hf (if_pos ht)),.of_pages ⟨rfl,rfl,rfl,rfl⟩ rfl,
        fun _ hi => by simp [hi] at ht,hstay rfl⟩
    by_cases hb : id = 0 ∨ s.pages.pageCount ≤ id
    · exact ⟨_,_,attempt_err (call_err hf ((if_neg ht).trans (if_pos hb))),
        .of_pages ⟨rfl,rfl,rfl,rfl⟩ rfl,fun _ _ hl => hb.elim (fun h0 => by
          simp [h0,PageStore.Live,firstDataPageID] at hl)
          (not_le.mpr hl.2.1),hstay rfl⟩
    by_cases hm : id ∈ s.pages.freeList
    · exact ⟨_,_,attempt_err (call_err hf ((if_neg ht).trans ((if_neg hb).trans (if_pos hm)))),
        .of_pages ⟨rfl,rfl,rfl,rfl⟩ rfl,fun _ _ hl => hl.2.2 hm,hstay rfl⟩
    refine ⟨_,_,attempt_ok (call_ok hf ((if_neg ht).trans ((if_neg hb).trans (if_neg hm)))),
      ⟨⟨rfl,rfl,rfl,rfl⟩,rfl,rfl,fun j hj => ?_,fun j hj => ?_,fun j hj => ?_,fun hs hS => ?_⟩,
      fun _ _ hl => hl.2.2 (List.mem_cons_self ..),fun j hj hl => ?_⟩
    · exact Function.update_of_ne (fun he : j = id => hj (he ▸ hid)) ..
    · cases List.mem_cons.mp hj with
      | inl he => exact .inr (he ▸ hid)
      | inr hj => exact .inl hj
    · obtain ⟨h1,h2,h3⟩ := hj
      refine ⟨⟨h1,h2,fun hx => h3 (List.mem_cons_of_mem _ hx)⟩,?_⟩
      exact Function.update_of_ne (fun he : j = id => h3 (he ▸ List.mem_cons_self ..)) ..
    · have hid0 := (hS id hid).resolve_left fun h0 => hb (.inl h0)
      refine ⟨hs.idle,hs.bound,List.nodup_cons.mpr ⟨hm,hs.free_nodup⟩,fun j hj => ?_,hs.meta_lt⟩
      cases List.mem_cons.mp hj with
      | inl he =>
        subst he
        exact ⟨hid0,not_le.mp fun hx => hb (.inr hx)⟩
      | inr hj => exact hs.free j hj
    · exact ⟨hl.1,hl.2.1,fun hx => (List.mem_cons.mp hx).elim hj hl.2.2⟩

lemma attempt_readPage (hi : s.pages.txn = none) (id : ℕ) :
    ∃ r, attempt (readPage id) s = (.ok r,s.tick .read 1) ∧
      (∀ b ∈ r, s.pages.Live id ∧ b = s.pages.body id) ∧
      (s.Healthy → s.pages.Live id → r≠none) := by
  cases hf : s.faults .read (s.seen .read) with
  | true =>
    exact ⟨none,attempt_err (call_fault hf),nofun,
      fun hh => absurd (hf.symm.trans (hh ..)) (by decide)⟩
  | false =>
    by_cases hl : s.pages.Live id
    · refine ⟨_,attempt_ok (readPage_ok hl hf),fun b hb => ⟨hl,?_⟩,fun _ _ => nofun⟩
      rw [← Option.mem_some.mp hb,view_idle hi]
    · exact ⟨none,attempt_err (call_err hf (if_neg hl)),nofun,fun _ h => absurd h hl⟩

end Calls

/-- Two sets of addresses that the pointers on their pages do not leave: nodes, which point to
nodes and to chains, and chains, which point to chains. -/
structure Owned (p : PageStore) (N C : ℕ → Prop) : Prop where
  leaf : ∀ id, N id → p.Live id → (p.body id).headD 0 = nodeTypeLeaf →
    ∀ a ∈ overflowHeads (p.body id), C a
  inner : ∀ id, N id → p.Live id → (p.body id).headD 0 = nodeTypeInternal →
    ∀ a ∈ childPointers (p.body id), N a
  chain : ∀ id, C id → p.Live id → ∀ r, decodeOverflowPage (p.body id) = .ok r → C r.1

/-- The pages of the two sets can be read as what they are. -/
structure Typed (p : PageStore) (N C : ℕ → Prop) : Prop where
  node : ∀ id, N id → p.Live id →
    (p.body id).headD 0 = nodeTypeLeaf ∨ (p.body id).headD 0 = nodeTypeInternal
  chain : ∀ id, C id → p.Live id → ∃ r, decodeOverflowPage (p.body id) = .ok r

def pointers (b : Bytes) : List ℕ :=
  if b.headD 0 = nodeTypeLeaf then overflowHeads b
  else if b.headD 0 = nodeTypeInternal then childPointers b
  else match decodeOverflowPage b with
    | .ok r => [r.1]
    | .error _ => []

lemma pointers_overflow {b : Bytes} {r : ℕ × Bytes} (h : decodeOverflowPage b = .ok r) :
    pointers b = [r.1] := by
  have ht : b.headD 0 = nodeTypeOverflow := by
    unfold decodeOverflowPage at h
    split at h
    · cases h
    split at h
    · cases h
    · exact not_not.mp ‹_›
  rw [pointers,ht,if_neg (by decide),if_neg (by decide),h]

/-- An address that no traversal descends from. -/
def EndMark (id : ℕ) : Prop := id = rootSentinel ∨ id = 0

/-- The pages visited between the two states were all freed, and no other ones; the addresses
on them were visited as well. -/
structure Cleared (s : Store) (vs : List ℕ) (s' : Store) (vs' : List ℕ) : Prop where
  kept : ∀ j, j ∉ vs' → s.pages.Live j → s'.pages.Live j
  dead : ∀ j ∈ vs', j ∈ vs ∨ ¬s'.pages.Live j
  closed : ∀ j ∈ vs', j ∈ vs ∨
    (s.pages.Live j → ∀ a ∈ pointers (s.pages.body j), a ∈ vs' ∨ EndMark a)

namespace Cleared
variable {S : ℕ → Prop} {s s₁ s₂ s₃ : Store} {vs vs₁ vs₂ : List ℕ} {id : ℕ}

lemma refl (s : Store) (vs : List ℕ) : Cleared s vs s vs :=
  ⟨fun _ _ hl => hl,fun _ hj => .inl hj,fun _ hj => .inl hj⟩

lemma trans (h : Cleared s vs s₁ vs₁) (g : Cleared s₁ vs₁ s₂ vs₂) (hf : Freed S s s₁) (hg : Freed S s₁ s₂)
    (hv : vs₁ ⊆ vs₂) : Cleared s vs s₂ vs₂ where
  kept j hj hl := g.kept j hj (h.kept j (fun hm => hj (hv hm)) hl)
  dead j hj := (g.dead j hj).elim
    (fun hm => (h.dead j hm).imp_right fun hd hl => hd (hg.live j hl).1) .inr
  closed j hj := by
    by_cases hm : j ∈ vs₁
    · exact (h.closed j hm).imp_right fun hc hl a ha => (hc hl a ha).imp_left fun hx => hv hx
    · refine .inr fun hl a ha => ?_
      have hl₁ := h.kept j hm hl
      rw [← (hf.live j hl₁).2] at ha
      exact (g.closed j hj).resolve_left hm hl₁ a ha

lemma visit (hf : Freed S s s₁) (pre : ∀ j, j≠id → s.pages.Live j → s₁.pages.Live j)
    (mid : Cleared s₁ (id::vs) s₂ vs₂) (post : ∀ j, j≠id → s₂.pages.Live j → s₃.pages.Live j)
    (hg : Freed S s₂ s₃) (hid : id ∈ vs₂) (hdead : ¬s₃.pages.Live id)
    (hptr : s.pages.Live id → ∀ a ∈ pointers (s.pages.body id), a ∈ vs₂ ∨ EndMark a) :
    Cleared s vs s₃ vs₂ where
  kept j hj hl := by
    have hne : j≠id := fun he => hj (he ▸ hid)
    exact post j hne (mid.kept j hj (pre j hne hl))
  dead j hj := by
    obtain hm | hd := mid.dead j hj
    · exact (List.mem_cons.mp hm).elim (fun he => .inr (he ▸ hdead)) .inl
    · exact .inr fun hl => hd (hg.live j hl).1
  closed j hj := by
    by_cases he : j = id
    · subst he
      exact .inr hptr
    · refine (mid.closed j hj).imp (fun hm => (List.mem_cons.mp hm).resolve_left he) fun hc hl a ha => ?_
      have hl₁ := pre j he hl
      rw [← (hf.live j hl₁).2] at ha
      exact hc hl₁ a ha

end Cleared

def unvisited (m : ℕ) (vs : List ℕ) : ℕ := ((Finset.range m).filter (· ∉ vs)).card

lemma unvisited_mono {m : ℕ} {vs vs' : List ℕ} (h : vs ⊆ vs') : unvisited m vs' ≤ unvisited m vs :=
  Finset.card_le_card fun x hx => by
    simp only [Finset.mem_filter] at hx ⊢
    exact ⟨hx.1,fun hm => hx.2 (h hm)⟩

lemma unvisited_cons {m id : ℕ} {vs : List ℕ} (hm : id < m) (hid : id ∉ vs) :
    unvisited m (id::vs) < unvisited m vs := by
  apply Finset.card_lt_card
  refine ⟨fun x hx => ?_,fun hsub => ?_⟩
  · simp only [Finset.mem_filter,List.mem_cons,not_or] at hx ⊢
    exact ⟨hx.1,hx.2.2⟩
  · have hx := hsub (Finset.mem_filter.mpr ⟨Finset.mem_range.mpr hm,hid⟩)
    simp at hx

/-- The state of a traversal with fuel `n`. -/
structure Freeing (N C : ℕ → Prop) (n : ℕ) (s : Store) (vs : List ℕ) : Prop where
  idle : s.pages.txn = none
  owned : Owned s.pages N C
  fuel : unvisited s.pages.pageCount vs < n

/-- The traversal returns, has visited `l` and more, and freed pages of the two sets only; over
a healthy pager it freed all it visited. -/
def Frees (N C : ℕ → Prop) (l : List ℕ) (x : Cmd (List ℕ)) (s : Store) (vs : List ℕ) : Prop :=
  ∃ vs' s', x s = (.ok vs',s') ∧ vs ⊆ vs' ∧ Freed (fun id => N id ∨ C id) s s' ∧
    (∀ a ∈ l, a ∈ vs' ∨ EndMark a) ∧ (s.Healthy → Typed s.pages N C → Cleared s vs s' vs')

section Traversal
variable {N C : ℕ → Prop} {n : ℕ} {s s' : Store} {vs vs' : List ℕ} {id : ℕ}

lemma Freeing.next (h : Freeing N C n s vs) (hf : Freed (fun id => N id ∨ C id) s s') (hv : vs ⊆ vs') :
    Freeing N C n s' vs' where
  idle := hf.txn.trans h.idle
  owned := by
    refine ⟨fun id hN hl ht a ha => ?_,fun id hN hl ht a ha => ?_,fun id hC hl r hr => ?_⟩
    all_goals obtain ⟨hl,hb⟩ := hf.live id hl
    · rw [hb] at ht ha
      exact h.owned.leaf id hN hl ht a ha
    · rw [hb] at ht ha
      exact h.owned.inner id hN hl ht a ha
    · rw [hb] at hr
      exact h.owned.chain id hC hl r hr
  fuel := hf.count.symm ▸ (unvisited_mono hv).trans_lt h.fuel

lemma Freeing.visit (h : Freeing N C (n+1) s vs) (hl : s.pages.Live id) (hid : id ∉ vs) :
    Freeing N C n (s.tick .read 1) (id::vs) where
  idle := h.idle
  owned := h.owned
  fuel := (unvisited_cons hl.2.1 hid).trans_le (Nat.lt_succ_iff.mp h.fuel)

lemma Freed.typed {S : ℕ → Prop} (hf : Freed S s s') (h : Typed s.pages N C) : Typed s'.pages N C where
  node id hN hl := by
    obtain ⟨hl,hb⟩ := hf.live id hl
    rw [hb]
    exact h.node id hN hl
  chain id hC hl := by
    obtain ⟨hl,hb⟩ := hf.live id hl
    rw [hb]
    exact h.chain id hC hl

lemma Freed.healthy {S : ℕ → Prop} (hf : Freed S s s') (h : s.Healthy) : s'.Healthy := fun c n => by
  rw [hf.same.faults]
  exact h c n

lemma frees_stay (x : Cmd (List ℕ)) (hx : x s = (.ok vs,s)) {l : List ℕ}
    (hl : ∀ a ∈ l, a ∈ vs ∨ EndMark a) :
    Frees N C l x s vs :=
  ⟨vs,s,hx,List.Subset.refl vs,.of_pages (.refl s) rfl,hl,fun _ _ => .refl s vs⟩

lemma freed_read (s : Store) : Freed (fun id => N id ∨ C id) s (s.tick .read 1) :=
  .of_pages ⟨rfl,rfl,rfl,rfl⟩ rfl

lemma frees_unread {x : Cmd (List ℕ)} (hx : x s = (.ok (id::vs),s.tick .read 1))
    (hdead : s.Healthy → Typed s.pages N C → ¬s.pages.Live id) : Frees N C [id] x s vs := by
  refine ⟨_,_,hx,List.subset_cons_self ..,freed_read s,fun a ha => ?_,fun hh ht => ?_⟩
  · exact .inl (List.mem_singleton.mp ha ▸ List.mem_cons_self ..)
  · have hd := hdead hh ht
    exact .visit (freed_read (N := N) (C := C) s) (fun _ _ hl => hl) (.refl _ _) (fun _ _ hl => hl)
      (.of_pages (S := fun id => N id ∨ C id) (.refl _) rfl) (List.mem_cons_self ..) hd fun hl =>
        absurd hl hd

theorem freeOverflowChain_frees (h : Freeing N C n s vs) (hid : C id) :
    Frees N C [id] (freeOverflowChain n id vs) s vs := by
  induction n generalizing s vs id with
  | zero => exact absurd h.fuel (Nat.not_lt_zero _)
  | succ n ih =>
    unfold freeOverflowChain
    by_cases hend : id = rootSentinel ∨ id = 0 ∨ id ∈ vs
    · rw [if_pos hend]
      refine frees_stay _ rfl fun a ha => ?_
      rw [List.mem_singleton.mp ha]
      exact (or_assoc.mpr hend).symm
    rw [if_neg hend]
    have hnew : id ∉ vs := fun hm => hend (.inr (.inr hm))
    obtain ⟨r,hr,hbody,hsome⟩ := attempt_readPage h.idle id
    cases r with
    | none => exact frees_unread (Prog.bind_ok hr) fun hh _ hl => hsome hh hl rfl
    | some b =>
      obtain ⟨hl,rfl⟩ := hbody b rfl
      cases hd : decodeOverflowPage (s.pages.body id) with
      | error e =>
        refine frees_unread ((Prog.bind_ok hr).trans (by simp only [hd]; rfl)) fun _ ht _ => ?_
        obtain ⟨q,hq⟩ := ht.chain id hid hl
        exact nomatch hd.symm.trans hq
      | ok p =>
        obtain ⟨q,s₁,hfree,hf,hgone,hrest⟩ := attempt_freePage (S := fun id => N id ∨ C id)
          (s := s.tick .read 1) id (.inr hid)
        have hfs := (freed_read s).trans hf
        obtain ⟨vs₂,s₂,hx,hv,hf₂,hto,hclear⟩ := ih ((h.visit hl hnew).next hf (List.Subset.refl _))
          (h.owned.chain id hid hl p hd)
        have hid₂ : id ∈ vs₂ := hv (List.mem_cons_self ..)
        refine ⟨vs₂,s₂,?_,List.Subset.trans (List.subset_cons_self ..) hv,hfs.trans hf₂,fun a ha => ?_,
          fun hh ht => ?_⟩
        · refine (Prog.bind_ok hr).trans ?_
          simp only [hd]
          exact (Prog.bind_ok hfree).trans hx
        · exact .inl (List.mem_singleton.mp ha ▸ hid₂)
        · refine .visit hfs hrest (hclear (hfs.healthy hh) (hfs.typed ht)) (fun _ _ hl => hl)
            (.of_pages (S := fun id => N id ∨ C id) (.refl _) rfl) hid₂ ?_ fun _ => ?_
          · exact fun hx => hgone hh h.idle (hf₂.live id hx).1
          · rw [pointers_overflow hd]
            exact hto

lemma foldlM_frees {f : List ℕ → ℕ → Cmd (List ℕ)} {T : ℕ → Prop}
    (hf : ∀ {s vs id}, Freeing N C n s vs → T id → Frees N C [id] (f vs id) s vs) {l : List ℕ}
    (hl : ∀ a ∈ l, T a) (h : Freeing N C n s vs) : Frees N C l (l.foldlM f vs) s vs := by
  induction l generalizing s vs with
  | nil => exact frees_stay _ rfl nofun
  | cons a l ih =>
    obtain ⟨vs',s',hx,hv,hfr,hto,hclear⟩ := hf h (hl a (List.mem_cons_self ..))
    obtain ⟨vs'',s'',hx',hv',hfr',hto',hclear'⟩ := ih (fun b hb => hl b (List.mem_cons_of_mem _ hb))
      (h.next hfr hv)
    refine ⟨vs'',s'',?_,List.Subset.trans hv hv',hfr.trans hfr',fun b hb => ?_,fun hh ht => ?_⟩
    · rw [List.foldlM_cons,Prog.bind_ok hx,hx']
    · cases List.mem_cons.mp hb with
      | inl he => exact (hto b (List.mem_singleton.mpr he)).imp_left fun hm => hv' hm
      | inr hm => exact hto' b hm
    · exact (hclear hh ht).trans (hclear' (hfr.healthy hh) (hfr.typed ht)) hfr hfr' hv'

theorem freeNode_frees (h : Freeing N C n s vs) (hid : N id) : Frees N C [id] (freeNode n id vs) s vs := by
  induction n generalizing s vs id with
  | zero => exact absurd h.fuel (Nat.not_lt_zero _)
  | succ n ih =>
    unfold freeNode
    by_cases hend : id = rootSentinel ∨ id = 0 ∨ id ∈ vs
    · rw [if_pos hend]
      refine frees_stay _ rfl fun a ha => ?_
      rw [List.mem_singleton.mp ha]
      exact (or_assoc.mpr hend).symm
    rw [if_neg hend]
    have hnew : id ∉ vs := fun hm => hend (.inr (.inr hm))
    obtain ⟨r,hr,hbody,hsome⟩ := attempt_readPage h.idle id
    cases r with
    | none => exact frees_unread (Prog.bind_ok hr) fun hh _ hl => hsome hh hl rfl
    | some b =>
      obtain ⟨hl,rfl⟩ := hbody b rfl
      have hgo := h.visit hl hnew
      -- what lies below is freed first, then the page itself
      have hbelow : Frees N C (if (s.pages.body id).headD 0 = nodeTypeLeaf then
        overflowHeads (s.pages.body id)
          else if (s.pages.body id).headD 0 = nodeTypeInternal then
            childPointers (s.pages.body id) else [])
          (if (s.pages.body id).headD 0 = nodeTypeLeaf then
            (overflowHeads (s.pages.body id)).foldlM (fun vs id => freeOverflowChain n id vs) (id::vs)
          else if (s.pages.body id).headD 0 = nodeTypeInternal then
            (childPointers (s.pages.body id)).foldlM (fun vs id => freeNode n id vs) (id::vs)
          else pure (id::vs)) (s.tick .read 1) (id::vs) := by
        by_cases hleaf : (s.pages.body id).headD 0 = nodeTypeLeaf
        · rw [if_pos hleaf,if_pos hleaf]
          exact foldlM_frees freeOverflowChain_frees (h.owned.leaf id hid hl hleaf) hgo
        · rw [if_neg hleaf,if_neg hleaf]
          by_cases hint : (s.pages.body id).headD 0 = nodeTypeInternal
          · rw [if_pos hint,if_pos hint]
            exact foldlM_frees ih (h.owned.inner id hid hl hint) hgo
          · rw [if_neg hint,if_neg hint]
            exact frees_stay _ rfl nofun
      obtain ⟨vs₁,s₁,hx,hv,hf,hto,hclear⟩ := hbelow
      obtain ⟨q,s₂,hfree,hf',hgone,hrest⟩ := attempt_freePage (S := fun id => N id ∨ C id) (s := s₁) id
        (.inl hid)
      have hid₁ : id ∈ vs₁ := hv (List.mem_cons_self ..)
      refine ⟨vs₁,s₂,?_,List.Subset.trans (List.subset_cons_self ..) hv,
        ((freed_read s).trans hf).trans hf',
        fun a ha => .inl (List.mem_singleton.mp ha ▸ hid₁),fun hh ht => ?_⟩
      · refine (Prog.bind_ok hr).trans ?_
        simp only
        rw [Prog.bind_ok hx,Prog.bind_ok hfree]
        rfl
      · refine .visit (freed_read (N := N) (C := C) s) (fun _ _ hl =>
          hl) (hclear hh ht) hrest hf' hid₁ ?_ fun _ => ?_
        · exact hgone (((freed_read (N := N) (C := C) s).trans hf).healthy hh) (hf.txn.trans h.idle)
        · have hp : pointers (s.pages.body id) = if (s.pages.body id).headD 0 = nodeTypeLeaf then
              overflowHeads (s.pages.body id) else if (s.pages.body id).headD 0 = nodeTypeInternal then
              childPointers (s.pages.body id) else [] := by
            unfold pointers
            split
            · rfl
            · rename_i hleaf
              rw [if_pos ((ht.node id hid hl).resolve_left hleaf),
                if_pos ((ht.node id hid hl).resolve_left hleaf)]
          rw [hp]
          exact hto

theorem freeTreePages_run (hi : s.pages.txn = none) (ho : Owned s.pages N C) (hid : N id) :
    ∃ s', freeTreePages id s = (.ok (),s') ∧ Freed (fun id => N id ∨ C id) s s' ∧
      (s.Healthy → Typed s.pages N C → ∃ vs, (id ∈ vs ∨ EndMark id) ∧ Cleared s [] s' vs) := by
  unfold freeTreePages
  by_cases hend : id = rootSentinel
  · rw [if_pos hend]
    exact ⟨s,rfl,.of_pages (.refl s) rfl,fun _ _ => ⟨[],.inr (.inl hend),.refl s []⟩⟩
  · rw [if_neg hend,Prog.bind_ok (fuel_run s)]
    have hfuel : unvisited s.pages.pageCount [] < s.pages.pageCount+1 := by
      unfold unvisited
      exact Nat.lt_succ_of_le ((Finset.card_filter_le ..).trans (Finset.card_range _).le)
    obtain ⟨vs,s',hx,-,hf,hto,hclear⟩ := freeNode_frees ⟨hi,ho,hfuel⟩ hid
    rw [Prog.bind_ok hx]
    exact ⟨s',rfl,hf,fun hh ht => ⟨vs,hto id (List.mem_singleton_self id),hclear hh ht⟩⟩

end Traversal

section Tree
variable {p : PageStore} {H : ℕ} {t : Tree Key Slot H}

def OnChain (t : Tree Key Slot H) (id : ℕ) : Prop :=
  id ∈ overflowPages (entries H t) ∨ id = rootSentinel ∨ id = 0

lemma chained_next {body : ℕ → Bytes} {ids : List ℕ} {rest : Bytes} (h : Chained body ids rest) {id : ℕ}
    (hid : id ∈ ids) : ∃ r, decodeOverflowPage (body id) = .ok r ∧ (r.1 ∈ ids ∨ r.1 = rootSentinel) := by
  induction ids generalizing rest with
  | nil => simp at hid
  | cons a ids ih =>
    cases List.mem_cons.mp hid with
    | inl he =>
      subst he
      refine ⟨_,h.1,?_⟩
      cases ids with
      | nil => exact .inr rfl
      | cons b ids => exact .inl (by simp)
    | inr hm =>
      obtain ⟨r,hr,hn⟩ := ih h.2 hm
      exact ⟨r,hr,hn.imp_left (List.mem_cons_of_mem _)⟩

lemma overflow_ref {e : Slot} (hs : ∀ id ∈ e.pages, id < 2^51) (h : e.ref.hasOverflow = true) :
    e.ref.overflowPageID ∈ e.pages := by
  cases e with
  | inline v hv =>
    rw [Slot.ref_inline] at h
    cases h
  | overflow v ids h1 h2 h3 =>
    obtain ⟨id,rest,rfl⟩ : ∃ id rest, ids = id::rest :=
      List.exists_cons_of_length_pos (by rw [h3]; exact numOverflow_pos h1)
    have hlt := hs id (by simp [Slot.pages])
    rw [Slot.ref_overflow]
    simp only [List.headD_cons,Slot.pages]
    rw [Nat.mod_eq_of_lt (hlt.trans_le (by norm_num))]
    exact List.mem_cons_self ..

theorem Rooted.owned (ht : Rooted p t) (hs : Sound p) : Owned p (· ∈ ids H t) (OnChain t) where
  leaf id hid _ hty a ha := by
    cases List.mem_append.mp hid with
    | inr hi =>
      obtain ⟨n,hn,rfl⟩ := List.mem_map.mp hi
      rw [(decodeInternalNode_type (ht.holds.inner n hn)).2] at hty
      exact absurd hty (by decide)
    | inl hm =>
      obtain ⟨l,hl,rfl⟩ := List.mem_map.mp hm
      obtain ⟨nx,hd⟩ := ht.holds.leaf.mem l hl
      rw [overflowHeads,hd] at ha
      obtain ⟨ref,href,rfl⟩ := List.mem_map.mp ha
      obtain ⟨hm,hov⟩ := List.mem_filter.mp href
      obtain ⟨e,he,rfl⟩ := List.mem_map.mp hm
      have hent : e ∈ entries H t := List.mem_flatMap.mpr ⟨l,hl,he⟩
      have hpages : ∀ id ∈ e.2.pages, id < 2^51 := fun id hid =>
        hs.live_lt (ht.live id (overflow_mem_pagesOf hent hid)).1
      exact .inl (List.mem_flatMap.mpr ⟨e,hent,overflow_ref hpages hov⟩)
  inner id hid _ hty a ha := by
    cases List.mem_append.mp hid with
    | inl hm =>
      obtain ⟨l,hl,rfl⟩ := List.mem_map.mp hm
      obtain ⟨nx,hd⟩ := ht.holds.leaf.mem l hl
      rw [(decodeLeafNodeRefs_type hd).2] at hty
      exact absurd hty (by decide)
    | inr hi =>
      obtain ⟨n,hn,rfl⟩ := List.mem_map.mp hi
      rw [childPointers,ht.holds.inner n hn] at ha
      exact kid_mem_ids hn ha
  chain id hid hl r hr := by
    cases hid with
    | inr hend => exact absurd hend (hs.not_end hl)
    | inl hm =>
      obtain ⟨e,he,hid⟩ := List.mem_flatMap.mp hm
      have hst := ht.holds.slot e he
      obtain ⟨k,e⟩ := e
      cases e with
      | inline v hv => simp [Slot.pages] at hid
      | overflow v ids h1 h2 h3 =>
        obtain ⟨r',hr',hn⟩ := chained_next hst hid
        obtain rfl := Except.ok.inj (hr.symm.trans hr')
        exact hn.elim (fun hx => .inl (List.mem_flatMap.mpr ⟨_,he,hx⟩)) fun hx => .inr (.inl hx)

theorem Rooted.typed (ht : Rooted p t) (hs : Sound p) : Typed p (· ∈ ids H t) (OnChain t) where
  node id hid _ := by
    cases List.mem_append.mp hid with
    | inl hm =>
      obtain ⟨l,hl,rfl⟩ := List.mem_map.mp hm
      obtain ⟨nx,hd⟩ := ht.holds.leaf.mem l hl
      exact .inl (decodeLeafNodeRefs_type hd).2
    | inr hi =>
      obtain ⟨n,hn,rfl⟩ := List.mem_map.mp hi
      exact .inr (decodeInternalNode_type (ht.holds.inner n hn)).2
  chain id hid hl := by
    cases hid with
    | inr hend => exact absurd hend (hs.not_end hl)
    | inl hm =>
      obtain ⟨⟨k,e⟩,he,hid⟩ := List.mem_flatMap.mp hm
      have hst := ht.holds.slot _ he
      cases e with
      | inline v hv => simp [Slot.pages] at hid
      | overflow v ids h1 h2 h3 =>
        obtain ⟨r,hr,-⟩ := chained_next hst hid
        exact ⟨r,hr⟩

lemma chained_closed {C : ℕ → Prop} {body : ℕ → Bytes} {ids : List ℕ} {rest : Bytes}
    (h : Chained body ids rest)
    (hC : ∀ id ∈ ids, C id → ∀ r, decodeOverflowPage (body id) = .ok r → C r.1)
    (hhead : ∀ a ∈ ids.head?, C a) : ∀ id ∈ ids, C id := by
  induction ids generalizing rest with
  | nil => exact fun id hid => absurd hid List.not_mem_nil
  | cons a ids ih =>
    have ha : C a := hhead a rfl
    have hrest := ih h.2 (fun id hid => hC id (List.mem_cons_of_mem _ hid)) fun b hb => by
      have hnext := hC a (List.mem_cons_self ..) ha _ h.1
      cases ids with
      | nil => cases hb
      | cons c ids => exact Option.mem_some.mp hb ▸ hnext
    intro id hid
    exact (List.mem_cons.mp hid).elim (fun he => he ▸ ha) (hrest id)

/-- Sets that the pointers do not leave contain the whole tree once they contain its root. -/
theorem Owned.covers {N C : ℕ → Prop} (ho : Owned p N C) (hs : Sound p) (ht : Rooted p t)
    (hroot : N (rootId H t)) : (∀ id ∈ ids H t, N id) ∧ ∀ id ∈ overflowPages (entries H t), C id := by
  have hnodes : ∀ id ∈ ids H t, N id := forall_ids hroot fun n hn hN a ha => by
    have hlive :=
      (ht.live n.id (List.mem_append_left _ (List.mem_append_right _ (List.mem_map_of_mem hn)))).1
    refine ho.inner n.id hN hlive (decodeInternalNode_type (ht.holds.inner n hn)).2 a ?_
    rw [childPointers,ht.holds.inner n hn]
    exact ha
  refine ⟨hnodes,fun id hid => ?_⟩
  obtain ⟨⟨k,e⟩,he,hid⟩ := List.mem_flatMap.mp hid
  have hst := ht.holds.slot _ he
  have hlive : ∀ a ∈ e.pages, p.Live a := fun a ha => (ht.live a (overflow_mem_pagesOf he ha)).1
  cases e with
  | inline v hv => simp [Slot.pages] at hid
  | overflow v as h1 h2 h3 =>
    refine chained_closed hst (fun a ha hC r hr => ho.chain a hC (hlive a ha) r hr) (fun a ha => ?_) id hid
    obtain ⟨rest,rfl⟩ : ∃ rest, as = a::rest := by
      cases as with
      | nil => cases ha
      | cons b rest => exact ⟨rest,by rw [Option.mem_some.mp ha]⟩
    obtain ⟨l,hl,hle⟩ := List.mem_flatMap.mp he
    obtain ⟨nx,hd⟩ := ht.holds.leaf.mem l hl
    have hleaf := hnodes l.id (List.mem_append_left _ (List.mem_map_of_mem hl))
    refine ho.leaf l.id hleaf (ht.live _ (leaf_mem_pagesOf hl)).1 (decodeLeafNodeRefs_type hd).2 a ?_
    have hlt := (hs.live_lt (hlive a (List.mem_cons_self ..))).trans_le (by norm_num : 2^51 ≤ 256^8)
    rw [overflowHeads,hd]
    refine List.mem_map.mpr ⟨_,List.mem_filter.mpr ⟨List.mem_map_of_mem hle,?_⟩,?_⟩
    · rw [Slot.ref_overflow]
    · rw [Slot.ref_overflow]
      exact Nat.mod_eq_of_lt hlt

theorem Rooted.swept {s s' : Store} (hs : Sound s.pages) (ht : Rooted s.pages t) {vs : List ℕ}
    (hroot : rootId H t ∈ vs ∨ EndMark (rootId H t)) (hc : Cleared s [] s' vs) :
    ∀ id ∈ pagesOf t, ¬s'.pages.Live id := by
  have hptr : ∀ id, id ∈ vs ∨ EndMark id → s.pages.Live id → ∀ a ∈ pointers (s.pages.body id),
      a ∈ vs ∨ EndMark a := fun id hid hl =>
    (hc.closed id (hid.resolve_right (hs.not_end hl))).resolve_left List.not_mem_nil hl
  have ho : Owned s.pages (fun id => id ∈ vs ∨ EndMark id) (fun id => id ∈ vs ∨ EndMark id) := by
    refine ⟨fun id hN hl hty a ha => hptr id hN hl a ?_,fun id hN hl hty a ha => hptr id hN hl a ?_,
      fun id hC hl r hr => hptr id hC hl r.1 ?_⟩
    · rwa [pointers,if_pos hty]
    · rwa [pointers,hty,if_neg (by decide),if_pos rfl]
    · rw [pointers_overflow hr]
      exact List.mem_singleton_self _
  obtain ⟨hn,hov⟩ := ho.covers hs ht hroot
  intro id hid
  have hvis := (List.mem_append.mp hid).elim (hn id) (hov id)
  have hm := hvis.resolve_right (hs.not_end (ht.live id hid).1)
  exact (hc.dead id hm).resolve_left List.not_mem_nil

end Tree
end Plomvix.KV
