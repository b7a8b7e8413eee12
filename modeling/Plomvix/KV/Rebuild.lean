import Plomvix.KV.Compact
import Plomvix.KV.Transact

/-! What a bulk load that returns has done. The facts are read back from the run: which
pages it took, and which tree the page bodies it made describe. An allocation may fail on
the way where the code ignores that. -/
namespace Plomvix.KV
open Lib Pager BPlus
variable {entries : List Entry} {s s' : Store}

section Inversion
variable {α β : Type} {s s' : Store}

lemma of_call_ok {c : PagerCall} {op : PageStore → Except Pager.Err α × PageStore} {a : α}
    (h : call c op s = (.ok a,s')) : ∃ p, op s.pages = (.ok a,p) ∧ s' = s.after c 1 p := by
  unfold call at h
  split at h
  · cases h
  · obtain ⟨h1,rfl⟩ := Prod.mk.inj h
    cases hr : (op s.pages).1 with
    | error e =>
      rw [hr] at h1
      cases h1
    | ok b =>
      rw [hr] at h1
      obtain rfl := Except.ok.inj h1
      exact ⟨_,Prod.ext hr rfl,rfl⟩

lemma of_readPage {id : ℕ} {b : Bytes} (h : readPage id s = (.ok b,s')) :
    s.pages.Live id ∧ b = s.pages.view id ∧ s' = s.tick .read 1 := by
  obtain ⟨p,hp,rfl⟩ := of_call_ok h
  unfold PageStore.readPage at hp
  split at hp
  · obtain ⟨hb,rfl⟩ := Prod.mk.inj hp
    exact ⟨‹_›,(Except.ok.inj hb).symm,rfl⟩
  · cases hp

lemma of_wrap_ok {text : String} {x : Cmd α} {a : α} (h : wrap text x s = (.ok a,s')) :
    x s = (.ok a,s') := by
  unfold wrap Prog.handle at h
  split at h
  · rename_i hx
    exact hx.trans h
  · rename_i e s₁ hx
    cases e <;> cases h

lemma of_orRollback_ok {x : Cmd α} {a : α} (h : orRollback x s = (.ok a,s')) : x s = (.ok a,s') := by
  unfold orRollback Prog.handle at h
  split at h
  · rename_i hx
    exact hx.trans h
  · rename_i e s₁ hx
    cases e with
    | err e =>
      obtain ⟨_,_,-,h'⟩ := Prog.of_bind_ok h
      cases h'
    | panic => cases h
    | diverge => cases h

lemma of_codec_ok {x : Except Err α} {a : α} (h : codec x s = (.ok a,s')) : x = .ok a ∧ s' = s := by
  cases x with
  | error e => cases h
  | ok b =>
    obtain ⟨h1,h2⟩ := Prod.mk.inj h
    exact ⟨congrArg Except.ok (Except.ok.inj h1),h2.symm⟩

end Inversion

/-- Between the two states the pages `ids` were allocated, and nothing else happened. -/
structure Took (s s' : Store) (ids : List ℕ) : Prop where
  same : SameHandle s s'
  grown : Extends s.pages s'.pages ids

lemma Took.refl {s : Store} (h : Sound s.pages) : Took s s [] := ⟨.refl s,.refl h⟩

lemma Took.trans {s s' s'' : Store} {as bs : List ℕ} (h : Took s s' as) (g : Took s' s'' bs) :
    Took s s'' (as++bs) := ⟨h.same.trans g.same,h.grown.trans g.grown⟩

lemma took_allocatePage {id : ℕ} (hs : Sound s.pages) (h : allocatePage s = (.ok id,s')) :
    Took s s' [id] := by
  obtain ⟨p,hp,rfl⟩ := of_call_ok h
  exact ⟨⟨rfl,rfl,rfl,rfl⟩,extends_of_allocate hs hp⟩

lemma allocate_error {p q : PageStore} {e : Pager.Err} (h : p.allocatePage = (.error e,q)) : q = p := by
  unfold PageStore.allocatePage at h
  split at h
  · exact (Prod.mk.inj h).2.symm
  · split at h
    · cases h
    · split at h
      · cases h
      · exact (Prod.mk.inj h).2.symm

lemma attempt_allocatePage {s : Store} (hs : Sound s.pages) :
    ∃ r s', attempt allocatePage s = (.ok r,s') ∧ Took s s' r.toList := by
  have hstay : ∀ s' : Store, s'.pages = s.pages → SameHandle s s' → Took s s' [] := fun s' hp h =>
    ⟨h,hp.symm ▸ .refl hs⟩
  cases hf : s.faults .alloc (s.seen .alloc) with
  | true => exact ⟨none,_,attempt_err (call_fault hf),hstay _ rfl ⟨rfl,rfl,rfl,rfl⟩⟩
  | false =>
    cases ha : s.pages.allocatePage with
    | mk r q =>
      cases r with
      | error e =>
        obtain rfl := allocate_error ha
        exact ⟨none,_,attempt_err (call_err hf ha),hstay _ rfl ⟨rfl,rfl,rfl,rfl⟩⟩
      | ok id => exact ⟨some id,_,attempt_ok (call_ok hf ha),⟨rfl,rfl,rfl,rfl⟩,extends_of_allocate hs ha⟩

lemma allocOverflow_took {s : Store} (hs : Sound s.pages) (n : ℕ) :
    ∃ ids b s', allocOverflow n s = (.ok (ids,b),s') ∧ Took s s' ids ∧ (b = true → ids.length = n) := by
  induction n generalizing s with
  | zero => exact ⟨[],true,s,rfl,.refl hs,fun _ => rfl⟩
  | succ n ih =>
    obtain ⟨r,s₁,ha,ht⟩ := attempt_allocatePage hs
    rw [allocOverflow,Prog.bind_ok ha]
    cases r with
    | none => exact ⟨[],false,s₁,rfl,ht,nofun⟩
    | some id =>
      obtain ⟨ids,b,s₂,hr,ht',hb⟩ := ih ht.grown.sound
      simp only
      rw [Prog.bind_ok hr]
      exact ⟨id::ids,b,s₂,rfl,ht.trans ht',fun h => by rw [List.length_cons,hb h]⟩

/-- The slot that a bulk load makes from an entry: a short value is stored as it is; a long
one is lost, or its overflow pages are among the new pages `ids`. -/
def Repacked (ids : List ℕ) (e : Entry) (x : Key × Slot) : Prop :=
  x.1 = e.1 ∧ if e.2.length ≤ maxValSize then x.2.value = e.2 ∧ x.2.pages = []
    else x.2.pages ⊆ ids ∧ (x.2.pages = [] → x.2.value≠e.2)

lemma Repacked.mono {ids ids' : List ℕ} (h : ids ⊆ ids') {e : Entry} {x : Key × Slot}
    (hr : Repacked ids e x) : Repacked ids' e x := by
  obtain ⟨hk,hv⟩ := hr
  refine ⟨hk,?_⟩
  split
  · rwa [if_pos ‹_›] at hv
  · rw [if_neg ‹_›] at hv
    exact ⟨List.Subset.trans hv.1 h,hv.2⟩

/-- A value that a leaf slot can hold, with its page address if it is long. -/
def Entry.Fits (e : Entry) : Prop :=
  e.1.length ≤ maxKeySize ∧ (e.2.length ≤ maxValSize ∨ e.2.length+8 ≤ maxValSizeEnterprise)

/-- The value needs no overflow page. -/
def Entry.Short (e : Entry) : Prop := e.2.length ≤ maxValSize

lemma took_compactValue {e : Entry} {b : Bytes} (hs : Sound s.pages) (he : Entry.Fits e)
    (h : compactValue e.2 s = (.ok b,s')) :
    ∃ ids, Took s s' ids ∧ (e.Short → ids ⊆ []) ∧ ∃ x : Key × Slot, b = x.2.packed ∧ Repacked ids e x := by
  unfold compactValue at h
  by_cases hv : e.2.length ≤ maxValSize
  · rw [if_neg (not_lt.mpr hv)] at h
    obtain ⟨rfl,rfl⟩ := Prog.of_pure_ok h
    exact ⟨[],.refl hs,fun _ => List.Subset.refl _,(e.1,.inline e.2 hv),rfl,rfl,
      by rw [if_pos hv]; exact ⟨rfl,rfl⟩⟩
  · rw [if_pos (not_le.mp hv),prepareOverflow] at h
    obtain ⟨ids,c,s₁,hr,ht,hc⟩ := allocOverflow_took hs (numOverflow e.2)
    rw [bind_assoc,Prog.bind_ok hr] at h
    cases c with
    | false =>
      obtain ⟨rfl,rfl⟩ := Prog.of_pure_ok h
      refine ⟨ids,ht,fun h => absurd h hv,(e.1,.inline [] (Nat.zero_le _)),rfl,rfl,?_⟩
      rw [if_neg hv]
      refine ⟨List.nil_subset _,fun _ hx => hv ?_⟩
      rw [← show ([] : Bytes) = e.2 from hx]
      exact Nat.zero_le _
    | true =>
      obtain ⟨rfl,rfl⟩ := Prog.of_pure_ok h
      have hlen := hc rfl
      refine ⟨ids,ht,fun h => absurd h hv,
        (e.1,.overflow e.2 ids (not_le.mp hv) (he.2.resolve_left hv) hlen),rfl,rfl,?_⟩
      rw [if_neg hv]
      refine ⟨List.Subset.refl ids,fun hx => ?_⟩
      have hpos := numOverflow_pos (not_le.mp hv)
      rw [show ids = [] from hx,List.length_nil] at hlen
      omega

lemma append_subset_append {α : Type} {as bs cs ds : List α} (h : as ⊆ cs) (g : bs ⊆ ds) :
    as++bs ⊆ cs++ds :=
  List.append_subset.mpr ⟨List.subset_append_of_subset_left _ h,List.subset_append_of_subset_right _ g⟩

lemma flatMap_nil_subset {α : Type} (xs : List α) : (xs.flatMap fun _ => ([] : List ℕ)) ⊆ [] := by
  simp

/-- A loop of commands that take pages. `keep` picks the addresses that a result is about; under
`P` there are no others. -/
lemma mapM_took {α β : Type} {g : α → Cmd β} (keep : β → List ℕ) {P : α → Prop}
    {R : List ℕ → α → β → Prop}
    (hmono : ∀ {as bs a b}, as ⊆ bs → R as a b → R bs a b) {xs : List α}
    (hg : ∀ a ∈ xs, ∀ {s b s'}, Sound s.pages → g a s = (.ok b,s') →
      ∃ ids, Took s s' ids ∧ (keep b).Sublist ids ∧ (P a → ids ⊆ keep b) ∧ R ids a b)
    {bs : List β} (hs : Sound s.pages) (h : xs.mapM g s = (.ok bs,s')) :
    ∃ ids, Took s s' ids ∧ (bs.flatMap keep).Sublist ids ∧
      ((∀ a ∈ xs, P a) → ids ⊆ bs.flatMap keep) ∧ List.Forall₂ (R ids) xs bs := by
  induction xs generalizing s bs with
  | nil =>
    rw [List.mapM_nil] at h
    obtain ⟨rfl,rfl⟩ := Prog.of_pure_ok h
    exact ⟨[],.refl hs,List.Sublist.refl _,fun _ => List.nil_subset _,.nil⟩
  | cons a xs ih =>
    rw [List.mapM_cons] at h
    obtain ⟨b,s₁,hb,h⟩ := Prog.of_bind_ok h
    obtain ⟨cs,s₂,hcs,h⟩ := Prog.of_bind_ok h
    obtain ⟨rfl,rfl⟩ := Prog.of_pure_ok h
    obtain ⟨as,hta,hka,hpa,hra⟩ := hg a (List.mem_cons_self ..) hs hb
    obtain ⟨bs,htb,hkb,hpb,hrb⟩ := ih (fun x hx => hg x (List.mem_cons_of_mem _ hx)) hta.grown.sound hcs
    refine ⟨as++bs,hta.trans htb,?_,fun hall => ?_,.cons (hmono (List.subset_append_left ..) hra) ?_⟩
    · rw [List.flatMap_cons]
      exact hka.append hkb
    · rw [List.flatMap_cons]
      exact append_subset_append (hpa (hall a (List.mem_cons_self ..)))
        (hpb fun x hx => hall x (List.mem_cons_of_mem _ hx))
    · exact hrb.imp fun _ _ hr => hmono (List.subset_append_right ..) hr

lemma forall₂_collect {α β γ : Type} {f : γ → β} {Q : α → γ → Prop} {as : List α} {bs : List β}
    (h : List.Forall₂ (fun a b => ∃ c, b = f c ∧ Q a c) as bs) :
    ∃ cs, bs = cs.map f ∧ List.Forall₂ Q as cs := by
  induction h with
  | nil => exact ⟨[],rfl,.nil⟩
  | cons hab _ ih =>
    obtain ⟨c,rfl,hq⟩ := hab
    obtain ⟨cs,rfl,hqs⟩ := ih
    exact ⟨c::cs,rfl,.cons hq hqs⟩

lemma took_compactVals {es : List Entry} {vals : List Bytes} (hs : Sound s.pages)
    (he : ∀ e ∈ es, Entry.Fits e) (h : compactVals es s = (.ok vals,s')) :
    ∃ ids xs, Took s s' ids ∧ ((∀ e ∈ es, e.Short) → ids ⊆ []) ∧
      vals = xs.map (fun x : Key × Slot => x.2.packed) ∧
      List.Forall₂ (Repacked ids) es xs := by
  obtain ⟨ids,ht,-,hshort,hr⟩ := mapM_took (fun _ => []) (P := Entry.Short)
    (R := fun ids e b => ∃ x : Key × Slot, b = x.2.packed ∧ Repacked ids e x)
    (fun hsub ⟨x,hb,hx⟩ => ⟨x,hb,hx.mono hsub⟩)
    (fun e hm s b s' hs h => by
      obtain ⟨ids,ht,hshort,hx⟩ := took_compactValue hs (he e hm) h
      exact ⟨ids,ht,List.nil_sublist _,hshort,hx⟩) hs h
  obtain ⟨xs,hv,hx⟩ := forall₂_collect hr
  refine ⟨ids,xs,ht,fun hall => ?_,hv,hx⟩
  exact List.Subset.trans (hshort hall) (flatMap_nil_subset vals)

/-- Entries in order, each of which fits a leaf. -/
structure Loadable (es : List Entry) : Prop where
  ascending : (es.map Prod.fst).Pairwise (· < ·)
  fits : ∀ e ∈ es, Entry.Fits e

lemma Loadable.sublist {es fs : List Entry} (h : Loadable es) (hs : fs.Sublist es) : Loadable fs :=
  ⟨h.ascending.sublist (hs.map _),fun e he => h.fits e (hs.subset he)⟩

lemma chunk_sublist {α : Type} (w i : ℕ) (l : List α) : (chunk w i l).Sublist l :=
  (List.take_sublist ..).trans (List.drop_sublist ..)

lemma Repacked.keys {ids : List ℕ} {es : List Entry} {xs : List (Key × Slot)}
    (h : List.Forall₂ (Repacked ids) es xs) : xs.map Prod.fst = es.map Prod.fst := by
  induction h with
  | nil => rfl
  | cons hx _ ih => rw [List.map_cons,List.map_cons,hx.1,ih]

/-- The body is a leaf with the `i`-th run of entries. -/
def MakesLeaf (entries : List Entry) (i next : ℕ) (ids : List ℕ) (body : Bytes)
    (xs : List (Key × Slot)) : Prop :=
  List.Forall₂ (Repacked ids) (chunk maxLeafKeys i entries) xs ∧
    decodeLeafNodeRefs body = .ok (xs.map Prod.fst,xs.map (fun x => x.2.ref),next)

lemma MakesLeaf.mono {i next : ℕ} {as bs : List ℕ} {body : Bytes}
    {xs : List (Key × Slot)} (hs : as ⊆ bs) (h : MakesLeaf entries i next as body xs) :
    MakesLeaf entries i next bs body xs :=
  ⟨h.1.imp fun _ _ hx => hx.mono hs,h.2⟩

section Leaves
variable {entries : List Entry} (hl : Loadable entries) {s s' : Store} (hs : Sound s.pages) {i : ℕ}
include hl

lemma makesLeaf_of_encode {ids : List ℕ} {xs : List (Key × Slot)} {next : ℕ} {body : Bytes}
    (hn : next < 256^8) (hx : List.Forall₂ (Repacked ids) (chunk maxLeafKeys i entries) xs)
    (h : encodeLeafNode ((chunk maxLeafKeys i entries).map Prod.fst) (xs.map (fun x => x.2.packed)) next =
      .ok body) : MakesLeaf entries i next ids body xs := by
  have hc := hl.sublist (chunk_sublist maxLeafKeys i entries)
  have hlen := hx.length_eq
  have hfit : LeafFits ((chunk maxLeafKeys i entries).map Prod.fst) (xs.map (fun x => x.2.packed)) := by
    refine ⟨by simpa using hlen,?_,hc.ascending,fun k hk => ?_,fun v hv => ?_⟩
    · rw [List.length_map,chunk_length]
      exact min_le_left ..
    · obtain ⟨e,he,rfl⟩ := List.mem_map.mp hk
      exact (hc.fits e he).1
    · obtain ⟨x,-,rfl⟩ := List.mem_map.mp hv
      exact x.2.storable
  obtain ⟨b,hb,hd⟩ := encodeLeafNode_decode hfit hn
  obtain rfl := Except.ok.inj (hb.symm.trans h)
  refine ⟨hx,?_⟩
  rw [hd,Repacked.keys hx,List.map_map]
  rfl

include hs

lemma took_compactLeaf {b : ℕ × Bytes} (h : compactLeaf entries i s = (.ok b,s')) :
    ∃ ids, Took s s' ids ∧ [b.1].Sublist ids ∧
      ((∀ e ∈ chunk maxLeafKeys i entries, e.Short) → ids ⊆ [b.1]) ∧
      ∃ xs, MakesLeaf entries i rootSentinel ids b.2 xs := by
  obtain ⟨vals,s₁,hv,h⟩ := Prog.of_bind_ok h
  obtain ⟨id,s₂,ha,h⟩ := Prog.of_bind_ok h
  obtain ⟨body,s₃,hw,h⟩ := Prog.of_bind_ok h
  obtain ⟨rfl,rfl⟩ := Prog.of_pure_ok h
  obtain ⟨he,rfl⟩ := of_codec_ok (of_wrap_ok hw)
  obtain ⟨ids,xs,ht,hshort,rfl,hx⟩ := took_compactVals hs
    (hl.sublist (chunk_sublist maxLeafKeys i entries)).fits hv
  have ht' := took_allocatePage ht.grown.sound (of_wrap_ok ha)
  refine ⟨ids++[id],ht.trans ht',List.sublist_append_right ..,fun hall => ?_,xs,?_⟩
  · exact append_subset_append (hshort hall) (List.Subset.refl [id])
  · exact (makesLeaf_of_encode hl (by decide) hx he).mono (List.subset_append_left ..)

lemma took_patchLeaf {leafPageIDs : List ℕ} (hids : ∀ a ∈ leafPageIDs, a < 256^8) {body : Bytes}
    (h : patchLeaf entries leafPageIDs i s = (.ok body,s')) :
    ∃ ids, Took s s' ids ∧ ([] : List ℕ).Sublist ids ∧
      ((∀ e ∈ chunk maxLeafKeys i entries, e.Short) → ids ⊆ []) ∧
      ∃ xs, MakesLeaf entries i (leafPageIDs.getD (i+1) 0) ids body xs := by
  obtain ⟨vals,s₁,hv,h⟩ := Prog.of_bind_ok h
  obtain ⟨he,rfl⟩ := of_codec_ok (of_wrap_ok h)
  obtain ⟨ids,xs,ht,hshort,rfl,hx⟩ := took_compactVals hs
    (hl.sublist (chunk_sublist maxLeafKeys i entries)).fits hv
  refine ⟨ids,ht,List.nil_sublist _,hshort,xs,makesLeaf_of_encode hl ?_ hx he⟩
  rw [List.getD_eq_getElem?_getD]
  cases hg : leafPageIDs[i+1]? with
  | none => decide
  | some a => exact hids a (List.mem_of_getElem? hg)

end Leaves

def Made (ws : List (ℕ × Bytes)) (n : BPlus.Inner Key ℕ) : Prop :=
  ∃ b, (n.id,b) ∈ ws ∧ decodeInternalNode b = .ok (n.kids,n.keys)

lemma internalFits_of_encode {childPtrs : List ℕ} {keys : List Key} {b : Bytes}
    (h : encodeInternalNode childPtrs keys = .ok b) (hk : ∀ k ∈ keys, k.length ≤ maxKeySize)
    (hp : ∀ a ∈ childPtrs, a < 256^8) : InternalFits childPtrs keys := by
  unfold encodeInternalNode at h
  split at h
  · cases h
  split at h
  · cases h
  split at h
  · cases h
  · exact ⟨not_not.mp ‹_›,not_lt.mp ‹_›,(List.isChain_iff_pairwise.mp (not_not.mp ‹_›)),hk,hp⟩

lemma compactSeps_length (entries : List Entry) (i c : ℕ) : (compactSeps entries i c).length = c-1 := by
  simp [compactSeps]

lemma compactSeps_mem (hl : Loadable entries) {i c : ℕ} {k : Key}
    (hk : k ∈ compactSeps entries i c) : k.length ≤ maxKeySize := by
  obtain ⟨j,-,rfl⟩ := List.mem_map.mp hk
  have hget (m : ℕ) : (entries.getD m ([],[])).1.length ≤ maxKeySize := by
    rw [List.getD_eq_getElem?_getD]
    cases hg : entries[m]? with
    | none => exact Nat.zero_le _
    | some e => exact (hl.fits e (List.mem_of_getElem? hg)).1
  exact hget _

/-- The body is the `i`-th node over a level. -/
def MakesNode (entries : List Entry) (level : List ℕ) (i : ℕ) (body : Bytes) : Prop :=
  decodeInternalNode body = .ok (chunk (maxInternalKeys+1) i level,
    compactSeps entries i (chunk (maxInternalKeys+1) i level).length)

lemma took_compactInternal (hl : Loadable entries)
    (hs : Sound s.pages) {level : List ℕ} (hlev : ∀ a ∈ level, a < 256^8) {i : ℕ} {b : ℕ × Bytes}
    (h : compactInternal entries level i s = (.ok b,s')) :
    ∃ ids, Took s s' ids ∧ [b.1].Sublist ids ∧ (True → ids ⊆ [b.1]) ∧ MakesNode entries level i b.2 := by
  obtain ⟨id,s₁,ha,h⟩ := Prog.of_bind_ok h
  obtain ⟨body,s₂,hw,h⟩ := Prog.of_bind_ok h
  obtain ⟨rfl,rfl⟩ := Prog.of_pure_ok h
  obtain ⟨he,rfl⟩ := of_codec_ok (of_wrap_ok hw)
  refine ⟨[id],took_allocatePage hs (of_wrap_ok ha),List.Sublist.refl _,
    fun _ => List.Subset.refl _,?_⟩
  obtain ⟨b,hb,hd⟩ := encodeInternalNode_decode (internalFits_of_encode he (fun k => compactSeps_mem hl)
    fun a ha => hlev a ((chunk_sublist ..).subset ha))
  obtain rfl := Except.ok.inj (hb.symm.trans he)
  exact hd

lemma exists_parent {h i : ℕ} {ts : List (Tree Key Slot h)} {id : ℕ} {body : Bytes}
    (hi : i < chunkCount (maxInternalKeys+1) ts.length)
    (hb : MakesNode entries (ts.map (rootId h)) i body) {ws : List (ℕ × Bytes)} (hm : (id,body) ∈ ws) :
    ∃ n : Tree Key Slot (h+1), id = rootId (h+1) n ∧ n.toInner.kids = chunk (maxInternalKeys+1) i ts ∧
      n.toInner.keys = compactSeps entries i (chunk (maxInternalKeys+1) i ts).length ∧
      Made ws (n.toInner.map (rootId h)) := by
  have hpos : 0 < (chunk (maxInternalKeys+1) i ts).length := chunk_pos (Nat.succ_pos _) hi
  unfold MakesNode at hb
  rw [chunk_map,List.length_map] at hb
  have hfit : (chunk (maxInternalKeys+1) i ts).length =
      (compactSeps entries i (chunk (maxInternalKeys+1) i ts).length).length+1 := by
    rw [compactSeps_length]
    omega
  exact ⟨.node ⟨id,_,_,hfit⟩,rfl,rfl,rfl,body,hm,hb⟩

lemma exists_parents {h : ℕ} {ts : List (Tree Key Slot h)} {nodes : List (ℕ × Bytes)}
    (hn : List.Forall₂ (fun i b => MakesNode entries (ts.map (rootId h)) i b.2)
      (List.range (chunkCount (maxInternalKeys+1) ts.length)) nodes) :
    ∃ ns : List (Tree Key Slot (h+1)), nodes.map Prod.fst = ns.map (rootId (h+1)) ∧
      Parents (maxInternalKeys+1) (compactSeps entries) (Made nodes) ts ns := by
  apply forall₂_collect
  rw [List.forall₂_map_right_iff]
  obtain ⟨hlen,hget⟩ := List.forall₂_iff_get.mp hn
  refine List.forall₂_iff_get.mpr ⟨hlen,fun j h1 h2 => ?_⟩
  refine exists_parent ?_ (hget j h1 h2) (List.get_mem nodes ⟨j,h2⟩)
  simpa using h1

lemma Made.mono {as bs : List (ℕ × Bytes)} (h : as ⊆ bs) {n : BPlus.Inner Key ℕ} (hn : Made as n) :
    Made bs n := by
  obtain ⟨b,hb,hd⟩ := hn
  exact ⟨b,h hb,hd⟩

theorem took_compactLevels (hl : Loadable entries) {n h : ℕ}
    {ts : List (Tree Key Slot h)} {r : ℕ × List (ℕ × Bytes)} (hs : Sound s.pages)
    (hlev : ∀ a ∈ ts.map (rootId h), a < 256^8)
    (hrun : compactLevels entries n (ts.map (rootId h)) s = (.ok r,s')) :
    ∃ ids x, Took s s' ids ∧ (r.2.map Prod.fst).Sublist ids ∧ ids ⊆ r.2.map Prod.fst ∧
      (∀ a ∈ r.2.map Prod.fst, a ∈ BPlus.ids x.1 x.2) ∧ r.1 = rootId x.1 x.2 ∧
      Built (maxInternalKeys+1) (compactSeps entries) (Made r.2) h ts x ∧
      ∀ w ∈ r.2, ∃ d, decodeInternalNode w.2 = .ok d := by
  induction n generalizing h s r with
  | zero =>
    match ts,hrun with
    | [],hrun => cases hrun
    | [t],hrun =>
      obtain ⟨rfl,rfl⟩ := Prog.of_pure_ok hrun
      exact ⟨[],⟨h,t⟩,.refl hs,List.Sublist.refl _,List.nil_subset _,nofun,rfl,.single t,nofun⟩
    | _::_::_,hrun => cases hrun
  | succ n ih =>
    match ts,hlev,hrun with
    | [],_,hrun => cases hrun
    | [t],_,hrun =>
      obtain ⟨rfl,rfl⟩ := Prog.of_pure_ok hrun
      exact ⟨[],⟨h,t⟩,.refl hs,List.Sublist.refl _,List.nil_subset _,nofun,rfl,.single t,nofun⟩
    | t::u::ts,hlev,hrun =>
      obtain ⟨nodes,s₁,hn,hrun⟩ := Prog.of_bind_ok hrun
      obtain ⟨⟨root,above⟩,s₂,hup,hrun⟩ := Prog.of_bind_ok hrun
      obtain ⟨rfl,rfl⟩ := Prog.of_pure_ok hrun
      obtain ⟨as,hta,hka,hpa,hra⟩ := mapM_took (fun b : ℕ × Bytes => [b.1]) (P := fun _ => True)
        (R := fun _ i b => MakesNode entries ((t::u::ts).map (rootId h)) i b.2)
        (fun _ hr => hr) (fun i _ s b s' hs h => took_compactInternal hl hs hlev h) hs hn
      have hdec : ∀ w ∈ nodes, ∃ d, decodeInternalNode w.2 = .ok d := fun w hw => by
        obtain ⟨i,-,hd⟩ := forall₂_mem hra hw
        exact ⟨_,hd⟩
      have hids : (nodes.map Prod.fst).Sublist as := by
        rw [List.map_eq_flatMap]
        exact hka
      have hcount : (rootId h t::rootId h u::ts.map (rootId h)).length = (t::u::ts).length := by simp
      rw [hcount] at hra
      obtain ⟨ns,hns,hp⟩ := exists_parents hra
      rw [hns] at hup
      obtain ⟨bs,x,htb,hkb,hpb,hall,hroot,hbuilt,hdec'⟩ := ih hta.grown.sound (fun a ha => by
        have hm := hids.subset (hns ▸ ha)
        exact (hta.grown.sound.live_lt (hta.grown.fresh a hm).2.1).trans_le (by norm_num)) hup
      have hsame : as ⊆ nodes.map Prod.fst := by
        rw [List.map_eq_flatMap]
        exact hpa fun _ _ => trivial
      refine ⟨as++bs,x,hta.trans htb,?_,?_,fun a ha => ?_,hroot,?_,?_⟩
      · rw [List.map_append]
        exact hids.append hkb
      · rw [List.map_append]
        exact append_subset_append hsame hpb
      · rw [List.map_append,List.mem_append,hns] at ha
        refine ha.elim (fun hm => ?_) (hall a)
        obtain ⟨n,hn,rfl⟩ := List.mem_map.mp hm
        exact hbuilt.ids_subset (Nat.succ_pos _) n hn (rootId_mem_ids ..)
      · refine .level (by simp) (List.Forall₂.imp (fun _ _ hx => ?_) hp)
          (hbuilt.mono fun _ => Made.mono (List.subset_append_right ..))
        exact ⟨hx.1,hx.2.1,hx.2.2.mono (List.subset_append_left ..)⟩
      · intro w hw
        exact (List.mem_append.mp hw).elim (hdec w) (hdec' w)

lemma leafRun_of_get {body : ℕ → Bytes} {next : ℕ} {ls : List (Leaf Key Slot)}
    (h : ∀ i l, ls[i]? = some l → decodeLeafNodeRefs (body l.id) =
      .ok (l.entries.map Prod.fst,l.entries.map (fun e => e.2.ref),(ls.map Leaf.id).getD (i+1) next)) :
    LeafRun body next ls := by
  induction ls with
  | nil => trivial
  | cons l ls ih =>
    refine ⟨?_,ih fun i x hx => ?_⟩
    · rw [h 0 l rfl]
      cases ls <;> rfl
    · rw [h (i+1) x (by simpa using hx)]
      simp

/-- What a bulk load has made: a tree `x`, the bodies `ws` of its pages, and slots that use no
pages but the new ones `ids`. -/
structure Loaded (entries : List Entry) (ids : List ℕ) (root : ℕ) (ws : List (ℕ × Bytes))
    (x : (H : ℕ) × Tree Key Slot H) : Prop where
  root_eq : root = rootId x.1 x.2
  addresses : (ws.map Prod.fst).Sublist ids
  nodes : ∃ as, as ⊆ ws ∧ ws.map Prod.fst = (leaves x.1 x.2).map Leaf.id++as.map Prod.fst ∧
    Built (maxInternalKeys+1) (compactSeps entries) (Made as) 0 ((leaves x.1 x.2).map Tree.leaf) x
  run : ∀ f : ℕ → Bytes, (∀ w ∈ ws, f w.1 = w.2) → LeafRun f rootSentinel (leaves x.1 x.2)
  pages : ∀ w ∈ ws, (∃ d, decodeLeafNodeRefs w.2 = .ok d) ∨ ∃ d, decodeInternalNode w.2 = .ok d
  whole : ∀ a ∈ ws.map Prod.fst, a ∈ BPlus.ids x.1 x.2
  tight : (∀ e ∈ entries, e.Short) → ids ⊆ ws.map Prod.fst
  chunks : List.Forall₂ (fun i l => List.Forall₂ (Repacked ids) (chunk maxLeafKeys i entries) l.entries)
    (List.range (chunkCount maxLeafKeys entries.length)) (leaves x.1 x.2)

lemma forall₂_range {β : Type} {R : ℕ → β → Prop} {m : ℕ} {bs : List β}
    (h : List.Forall₂ R (List.range m) bs) : bs.length = m ∧ ∀ i b, bs[i]? = some b → R i b := by
  obtain ⟨hlen,hget⟩ := List.forall₂_iff_get.mp h
  rw [List.length_range] at hlen
  refine ⟨hlen.symm,fun i b hb => ?_⟩
  obtain ⟨hi,rfl⟩ := List.getElem?_eq_some_iff.mp hb
  simpa using hget i (by simpa [hlen] using hi) hi

section Bodies
variable {entries : List Entry} {m : ℕ} {leafPages : List (ℕ × Bytes)} {patched : List Bytes}
  {as bs ids : List ℕ}

lemma leafBodies_makes (hm : 0 < m)
    (h1 : List.Forall₂ (fun i b => ∃ xs, MakesLeaf entries i rootSentinel as b.2 xs) (List.range m)
      leafPages)
    (h2 : List.Forall₂ (fun i b => ∃ xs,
      MakesLeaf entries i ((leafPages.map Prod.fst).getD (i+1) 0) bs b xs)
      (List.range (m-1)) patched) (ha : as ⊆ ids) (hb : bs ⊆ ids) :
    (leafBodies m leafPages patched).length = m ∧ ∀ i b, (leafBodies m leafPages patched)[i]? = some b →
      ∃ xs, MakesLeaf entries i ((leafPages.map Prod.fst).getD (i+1) rootSentinel) ids b xs := by
  obtain ⟨l1,g1⟩ := forall₂_range h1
  obtain ⟨l2,g2⟩ := forall₂_range h2
  have hlen : (leafBodies m leafPages patched).length = m := by
    simp only [leafBodies,List.length_append,List.length_drop,List.length_map]
    omega
  refine ⟨hlen,fun i b hi => ?_⟩
  have him : i < m := hlen ▸ (List.getElem?_eq_some_iff.mp hi).1
  rw [leafBodies] at hi
  by_cases hlast : i < m-1
  · rw [List.getElem?_append_left (by omega)] at hi
    obtain ⟨xs,hx⟩ := g2 i b hi
    have hin : i+1 < (leafPages.map Prod.fst).length := by
      rw [List.length_map]
      omega
    rw [List.getD_eq_getElem _ _ hin] at hx ⊢
    exact ⟨xs,hx.mono hb⟩
  · rw [List.getElem?_append_right (by omega),List.getElem?_drop,l2] at hi
    have hpos : m-1+(i-(m-1)) = i := by omega
    rw [hpos,List.getElem?_map] at hi
    obtain ⟨w,hw,rfl⟩ := Option.map_eq_some_iff.mp hi
    obtain ⟨xs,hx⟩ := g1 i w hw
    rw [List.getD_eq_default _ _ (by rw [List.length_map]; omega)]
    exact ⟨xs,hx.mono ha⟩

lemma exists_leaves {L : List ℕ} {B : List Bytes} {next : ℕ → ℕ}
    (h : ∀ i b, B[i]? = some b → ∃ xs, MakesLeaf entries i (next i) ids b xs) :
    ∃ ls : List (Leaf Key Slot), ls.map Leaf.id = L ∧
      ∀ i l b, ls[i]? = some l → B[i]? = some b → MakesLeaf entries i (next i) ids b l.entries := by
  have hget : ∀ i, ∃ xs, ∀ b, B[i]? = some b → MakesLeaf entries i (next i) ids b xs := fun i => by
    cases hb : B[i]? with
    | none => exact ⟨[],nofun⟩
    | some b =>
      obtain ⟨xs,hx⟩ := h i b hb
      exact ⟨xs,fun c hc => Option.some.inj hc ▸ hx⟩
  choose f hf using hget
  refine ⟨L.mapIdx fun i a => ⟨a,f i⟩,?_,fun i l b hl hb => ?_⟩
  · apply List.ext_getElem?
    intro i
    rw [List.getElem?_map,List.getElem?_mapIdx,Option.map_map]
    exact Option.map_id'
  · rw [List.getElem?_mapIdx] at hl
    obtain ⟨a,-,rfl⟩ := Option.map_eq_some_iff.mp hl
    exact hf i b hb

end Bodies

theorem bulkLoad_loaded (hl : Loadable entries) (hne : entries≠[])
    {r : ℕ × List (ℕ × Bytes)} (hs : Sound s.pages) (h : bulkLoad entries s = (.ok r,s')) :
    ∃ ids x, Took s s' ids ∧ Loaded entries ids r.1 r.2 x := by
  obtain ⟨leafPages,s₁,hleaf,h⟩ := Prog.of_bind_ok h
  obtain ⟨patched,s₂,hpatch,h⟩ := Prog.of_bind_ok h
  obtain ⟨⟨root,nodes⟩,s₃,hlev,h⟩ := Prog.of_bind_ok h
  obtain ⟨rfl,rfl⟩ := Prog.of_pure_ok h
  have hm : 0 < chunkCount maxLeafKeys entries.length :=
    chunkCount_pos (by decide) (List.length_pos_iff.mpr hne)
  obtain ⟨as,hta,hka,hpa,hra⟩ := mapM_took (fun b : ℕ × Bytes => [b.1])
    (P := fun i => ∀ e ∈ chunk maxLeafKeys i entries, e.Short)
    (R := fun ids i b => ∃ xs, MakesLeaf entries i rootSentinel ids b.2 xs)
    (fun hsub ⟨xs,hx⟩ => ⟨xs,hx.mono hsub⟩) (fun i _ s b s' hs h => took_compactLeaf hl hs h) hs hleaf
  have hkeep : (leafPages.map Prod.fst).Sublist as := by
    rw [List.map_eq_flatMap]
    exact hka
  have hword : ∀ a ∈ leafPages.map Prod.fst, a < 256^8 := fun a ha =>
    (hta.grown.sound.live_lt (hta.grown.fresh a (hkeep.subset ha)).2.1).trans_le (by norm_num)
  obtain ⟨bs,htb,-,hpb,hrb⟩ := mapM_took (fun _ : Bytes => [])
    (P := fun i => ∀ e ∈ chunk maxLeafKeys i entries, e.Short)
    (R := fun ids i b => ∃ xs, MakesLeaf entries i ((leafPages.map Prod.fst).getD (i+1) 0) ids b xs)
    (fun hsub ⟨xs,hx⟩ => ⟨xs,hx.mono hsub⟩) (fun i _ s b s' hs h => took_patchLeaf hl hs hword h)
    hta.grown.sound hpatch
  obtain ⟨hlen,hmakes⟩ := leafBodies_makes hm hra hrb (List.subset_append_left as bs)
    (List.subset_append_right as bs)
  have hcount : leafPages.length = chunkCount maxLeafKeys entries.length := (forall₂_range hra).1
  obtain ⟨ls,hids,hls⟩ := exists_leaves (L := leafPages.map Prod.fst) hmakes
  have hroots : leafPages.map Prod.fst = (ls.map Tree.leaf).map (rootId 0) := by
    rw [← hids,List.map_map]
    rfl
  rw [hroots] at hlev hword
  obtain ⟨cs,x,htc,hkc,hpc,hallc,hroot,hbuilt,hdec⟩ := took_compactLevels hl htb.grown.sound hword hlev
  have hleaves : leaves x.1 x.2 = ls := by
    rw [hbuilt.leaves (Nat.succ_pos _),List.flatMap_map]
    exact List.flatMap_singleton' ls
  have hzip : (leafPages.map Prod.fst).length = (leafBodies (chunkCount maxLeafKeys entries.length)
      leafPages patched).length := by rw [List.length_map,hcount,hlen]
  have hlslen : ls.length = chunkCount maxLeafKeys entries.length := by
    rw [← hcount,← List.length_map (f := Leaf.id),hids,List.length_map]
  -- the body of the leaf at a position
  have hbody : ∀ i l, ls[i]? = some l → ∃ b, (l.id,b) ∈ (leafPages.map Prod.fst).zip
      (leafBodies (chunkCount maxLeafKeys entries.length) leafPages patched) ∧
      MakesLeaf entries i ((leafPages.map Prod.fst).getD (i+1) rootSentinel) (as++bs) b l.entries := by
    intro i l hi
    obtain ⟨hil,rfl⟩ := List.getElem?_eq_some_iff.mp hi
    obtain ⟨b,hb⟩ : ∃ b,
      (leafBodies (chunkCount maxLeafKeys entries.length) leafPages patched)[i]? = some b :=
      ⟨_,List.getElem?_eq_getElem (by rw [hlen,← hlslen]; exact hil)⟩
    refine ⟨b,List.mem_of_getElem? (i := i) ?_,hls i _ b hi hb⟩
    rw [List.getElem?_zip_eq_some]
    refine ⟨?_,hb⟩
    rw [← hids,List.getElem?_map,hi]
    rfl
  refine ⟨as++bs++cs,x,(hta.trans htb).trans htc,hroot,?_,⟨nodes,List.subset_append_right ..,?_,?_⟩,
    fun f hf => ?_,fun w hw => ?_,fun a ha => ?_,fun hall => ?_,?_⟩
  · rw [List.map_append,List.map_fst_zip hzip.le]
    exact (hkeep.trans (List.sublist_append_left ..)).append hkc
  · rw [List.map_append,List.map_fst_zip hzip.le,hleaves,hids]
  · rw [hleaves]
    exact hbuilt
  · rw [hleaves]
    refine leafRun_of_get fun i l hi => ?_
    obtain ⟨b,hmem,hmake⟩ := hbody i l hi
    rw [hf _ (List.mem_append_left _ hmem),hids]
    exact hmake.2
  · cases List.mem_append.mp hw with
    | inl hw =>
      obtain ⟨i,hi⟩ := List.getElem?_of_mem hw
      obtain ⟨xs,hx⟩ := hmakes i w.2 (List.getElem?_zip_eq_some.mp hi).2
      exact .inl ⟨_,hx.2⟩
    | inr hw => exact .inr (hdec w hw)
  · rw [List.map_append,List.map_fst_zip hzip.le,List.mem_append] at ha
    refine ha.elim (fun hm => List.mem_append_left _ ?_) (hallc a)
    rw [hleaves,hids]
    exact hm
  · have hch : ∀ i, ∀ e ∈ chunk maxLeafKeys i entries, e.Short := fun i e he =>
      hall e ((chunk_sublist ..).subset he)
    have hfirst : as ⊆ leafPages.map Prod.fst := by
      rw [List.map_eq_flatMap]
      exact hpa fun i _ => hch i
    have hsecond : bs ⊆ [] := List.Subset.trans (hpb fun i _ => hch i) (flatMap_nil_subset patched)
    rw [List.map_append,List.map_fst_zip hzip.le]
    refine append_subset_append (fun a ha => ?_) hpc
    exact (List.mem_append.mp ha).elim (fun h => hfirst h) fun h => absurd (hsecond h) List.not_mem_nil
  · rw [hleaves,List.forall₂_iff_get]
    refine ⟨by rw [List.length_range,hlslen],fun i h1 h2 => ?_⟩
    obtain ⟨b,-,hmake⟩ := hbody i _ (List.getElem?_eq_getElem h2)
    rw [List.get_eq_getElem,List.getElem_range]
    exact hmake.1.imp fun _ _ hx => hx.mono (List.subset_append_left ..)

end Plomvix.KV
