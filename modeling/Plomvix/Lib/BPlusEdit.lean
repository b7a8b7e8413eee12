import Plomvix.Lib.Assoc
import Plomvix.Lib.BPlusInsert

/-! Editing the leaf that a search ends in. Entries left and right of a guided path lie on
their side of the key, so a change inside the leaf is a change of the whole contents, and
the order of the walk survives both a rewritten leaf and a split one. -/
namespace Plomvix.Lib.BPlus
variable {K V : Type}

lemma filterMap_weaveL (ks : List K) (cs : List (List (Item K))) (h : cs.length = ks.length) :
    (weaveL ks cs).filterMap Item.key? = cs.flatMap (fun c => c.filterMap Item.key?) := by
  induction ks generalizing cs with
  | nil => simp [List.length_eq_zero_iff.mp h,weaveL]
  | cons k ks ih =>
    cases cs with
    | nil => simp at h
    | cons c cs =>
      rw [weaveL,List.filterMap_append,List.filterMap_cons_none rfl,ih cs (by simpa using h)]
      rfl

namespace Ctx

def entriesL {h H : ℕ} (c : Ctx K V h H) : List (K × V) := c.leavesL.flatMap Leaf.entries
def entriesR {h H : ℕ} (c : Ctx K V h H) : List (K × V) := c.leavesR.flatMap Leaf.entries

theorem entries_plug {h H : ℕ} (c : Ctx K V h H) (t : Tree K V h) :
    entries H (c.plug t) = c.entriesL++entries h t++c.entriesR := by
  simp only [entries,entriesL,entriesR,leaves_plug,List.flatMap_append]

theorem entries_insertUp (cap : ℕ) {h H : ℕ} (c : Ctx K V h H) (l r : Tree K V h) (k : K)
    (pool : List ℕ) : entries _ (c.insertUp cap l k r pool).2 =
      c.entriesL++(entries h l++entries h r)++c.entriesR := by
  simp only [entries,entriesL,entriesR,leaves_insertUp,List.flatMap_append,List.append_assoc]

lemma flatMap_keys {h : ℕ} (ts : List (Tree K V h)) :
    (ts.map (items h)).flatMap (fun c => c.filterMap Item.key?) =
      ((ts.flatMap (leaves h)).flatMap Leaf.entries).map Prod.fst := by
  simp only [List.flatMap_map,keys_items,entries,List.flatMap_assoc,List.map_flatMap]

lemma keys_itemsL {h H : ℕ} (c : Ctx K V h H) :
    c.itemsL.filterMap Item.key? = c.entriesL.map Prod.fst := by
  induction c with
  | root => rfl
  | step f up ih =>
    rw [itemsL,List.filterMap_append,ih,filterMap_weaveL _ _ (by simp [f.fitL]),flatMap_keys,entriesL,
      entriesL,leavesL,List.flatMap_append,List.map_append]

lemma keys_itemsR {h H : ℕ} (c : Ctx K V h H) :
    c.itemsR.filterMap Item.key? = c.entriesR.map Prod.fst := by
  induction c with
  | root => rfl
  | step f up ih =>
    rw [itemsR,List.filterMap_append,ih,filterMap_weaveR _ _ (by simp [f.fitR]),flatMap_keys,entriesR,
      entriesR,leavesR,List.flatMap_append,List.map_append]

end Ctx

section Order
variable [LinearOrder K]

lemma Ordered.parts {h H : ℕ} {c : Ctx K V h H} {t : Tree K V h} (ho : Ordered H (c.plug t)) :
    c.itemsL.Pairwise Item.Before ∧ (items h t).Pairwise Item.Before ∧
      c.itemsR.Pairwise Item.Before ∧ (∀ x ∈ c.itemsL, ∀ y ∈ items h t, x.Before y) ∧
      (∀ x ∈ c.itemsL, ∀ y ∈ c.itemsR, x.Before y) ∧ ∀ x ∈ items h t, ∀ y ∈ c.itemsR, x.Before y := by
  rw [Ordered,Ctx.items_plug,List.pairwise_append,List.pairwise_append] at ho
  obtain ⟨⟨h1,h2,h3⟩,h4,h5⟩ := ho
  exact ⟨h1,h2,h4,h3,fun x hx y hy => h5 x (List.mem_append_left _ hx) y hy,
    fun x hx y hy => h5 x (List.mem_append_right _ hx) y hy⟩

lemma Guided.entriesL_lt {k : K} {h H : ℕ} {c : Ctx K V h H} (hg : Guided k c) {t : Tree K V h}
    (ho : Ordered H (c.plug t)) : ∀ e ∈ c.entriesL, e.1 < k := by
  intro e he
  have hm : e.1 ∈ c.itemsL.filterMap Item.key? := by
    rw [Ctx.keys_itemsL]
    exact List.mem_map_of_mem he
  exact hg.left ho.parts.1 _ (mem_items_of_key hm)

lemma Guided.lt_entriesR {k : K} {h H : ℕ} {c : Ctx K V h H} (hg : Guided k c) {t : Tree K V h}
    (ho : Ordered H (c.plug t)) : ∀ e ∈ c.entriesR, k < e.1 := by
  intro e he
  have hm : e.1 ∈ c.itemsR.filterMap Item.key? := by
    rw [Ctx.keys_itemsR]
    exact List.mem_map_of_mem he
  exact hg.right ho.parts.2.2.1 _ (mem_items_of_key hm)

theorem Ordered.sorted_entries {h : ℕ} {t : Tree K V h} (ho : Ordered h t) :
    Assoc.Sorted (BPlus.entries h t) := ho.entries

/-- The leaf where a search for `k` ends, with the path to it. -/
structure Located {H : ℕ} (t : Tree K V H) (k : K) (c : Ctx K V 0 H) (l : Leaf K V) : Prop where
  plug : c.plug (.leaf l) = t
  guided : Guided k c
  depth : c.depth = H

theorem located_of_descend {H : ℕ} {t : Tree K V H} {k : K} {c : Ctx K V 0 H} {l : Leaf K V}
    (h : descend (.upper k) H t .root = (c,l)) : Located t k c l := by
  have h1 := descend_plug (.upper k) H t .root
  have h2 := descend_upper k H t .root trivial
  have h3 := descend_depth (.upper k) H t .root
  rw [h] at h1 h2 h3
  exact ⟨h1,h2,h3.trans (Nat.zero_add H)⟩

theorem exists_located {H : ℕ} (t : Tree K V H) (k : K) :
    ∃ c l, descend (.upper k) H t .root = (c,l) ∧ Located t k c l :=
  ⟨_,_,rfl,located_of_descend rfl⟩

namespace Located
variable {H : ℕ} {t : Tree K V H} {k : K} {c : Ctx K V 0 H} {l : Leaf K V}

lemma mem_leaves (hl : Located t k c l) : l ∈ leaves H t := by
  rw [← hl.plug,Ctx.leaves_plug]
  simp

lemma entries_eq (hl : Located t k c l) : BPlus.entries H t = c.entriesL++l.entries++c.entriesR := by
  rw [← hl.plug,Ctx.entries_plug]
  simp [BPlus.entries]

lemma mem_entries (hl : Located t k c l) {e : K × V} (he : e ∈ l.entries) : e ∈ BPlus.entries H t :=
  List.mem_flatMap.mpr ⟨l,hl.mem_leaves,he⟩

lemma left (hl : Located t k c l) (ho : Ordered H t) : ∀ e ∈ c.entriesL, e.1 < k :=
  hl.guided.entriesL_lt (t := .leaf l) (hl.plug ▸ ho)

lemma right (hl : Located t k c l) (ho : Ordered H t) : ∀ e ∈ c.entriesR, k < e.1 :=
  hl.guided.lt_entriesR (t := .leaf l) (hl.plug ▸ ho)

theorem lookup (hl : Located t k c l) (ho : Ordered H t) :
    Assoc.lookup k (BPlus.entries H t) = Assoc.lookup k l.entries := by
  rw [hl.entries_eq,Assoc.lookup_middle (hl.left ho) (hl.right ho)]

end Located

namespace Located
variable {H : ℕ} {t : Tree K V H} {k : K} {c : Ctx K V 0 H} {l : Leaf K V}

lemma refill (hl : Located t k c l) (ho : Ordered H t) {es : List (K × V)}
    (hs : Assoc.Sorted es) (hk : ∀ e ∈ es, e.1 = k ∨ e.1 ∈ l.entries.map Prod.fst) :
    (c.itemsL++es.map (fun e => Item.key e.1)++c.itemsR).Pairwise Item.Before := by
  rw [← hl.plug] at ho
  obtain ⟨h1,-,h3,h4,h5,h6⟩ := ho.parts
  have hkey (e : K × V) (he : e ∈ es) : e.1 = k ∨ (Item.key e.1) ∈ items 0 (.leaf l) := by
    refine (hk e he).imp id fun hm => ?_
    obtain ⟨x,hx,hxe⟩ := List.mem_map.mp hm
    exact List.mem_map.mpr ⟨x,hx,by rw [hxe]⟩
  have hleft (x : Item K) (hx : x ∈ c.itemsL) (e : K × V) (he : e ∈ es) : x.Before (.key e.1) := by
    cases hkey e he with
    | inl hk => rw [hk]; exact hl.guided.left h1 x hx
    | inr hm => exact h4 x hx _ hm
  have hright (e : K × V) (he : e ∈ es) (y : Item K) (hy : y ∈ c.itemsR) :
      (Item.key e.1).Before y := by
    cases hkey e he with
    | inl hk => rw [hk]; exact hl.guided.right h3 y hy
    | inr hm => exact h6 _ hm y hy
  simp only [List.pairwise_append,List.pairwise_map,List.mem_append,List.mem_map]
  refine ⟨⟨h1,?_,?_⟩,h3,?_⟩
  · have hm : es.Pairwise (fun x y => x.1 < y.1) := List.pairwise_map.mp hs
    exact hm
  · rintro x hx y ⟨e,he,rfl⟩
    exact hleft x hx e he
  · rintro x (hx | ⟨e,he,rfl⟩) y hy
    · exact h5 x hx y hy
    · exact hright e he y hy

theorem ordered_edit (hl : Located t k c l) (ho : Ordered H t) {es : List (K × V)} (a : ℕ)
    (hs : Assoc.Sorted es) (hk : ∀ e ∈ es, e.1 = k ∨ e.1 ∈ l.entries.map Prod.fst) :
    Ordered H (c.plug (.leaf ⟨a,es⟩)) := by
  rw [Ordered,Ctx.items_plug]
  exact hl.refill ho hs hk

end Located

lemma pairwise_insert_sep {A B : List (Item K)} {j m : K}
    (h : (A++Item.key j::.key m::B).Pairwise Item.Before) :
    (A++Item.key j::.sep m::.key m::B).Pairwise Item.Before := by
  have ht : (A++[Item.key j]++Item.key m::B).Pairwise Item.Before := by simpa using h
  obtain ⟨h1,h2,h3⟩ := List.pairwise_append.mp ht
  have hjm : j < m := h3 (.key j) (by simp) (.key m) (by simp)
  suffices hw : (A++[Item.key j]++Item.sep m::Item.key m::B).Pairwise Item.Before by simpa using hw
  refine List.pairwise_append.mpr ⟨h1,List.pairwise_cons.mpr ⟨?_,h2⟩,?_⟩
  · intro y hy
    cases List.mem_cons.mp hy with
    | inl he => rw [he]; exact le_refl m
    | inr hm =>
      have hb := (List.pairwise_cons.mp h2).1 y hm
      cases y with
      | key b => exact le_of_lt hb
      | sep b => exact hb
  · intro x hx y hy
    cases List.mem_cons.mp hy with
    | inr hm => exact h3 x hx y hm
    | inl he =>
      rw [he]
      have hxj : x = .key j ∨ x.Before (.key j) := by
        cases List.mem_append.mp hx with
        | inl ha => exact .inr ((List.pairwise_append.mp h1).2.2 x ha _ (by simp))
        | inr hj => exact .inl (by simpa using hj)
      cases hxj with
      | inl hx => rw [hx]; exact hjm
      | inr hx =>
        cases x with
        | key b => exact lt_trans (b := j) hx hjm
        | sep b => exact lt_of_le_of_lt (b := j) hx hjm

theorem Located.ordered_split {k m : K} {w : V} {H : ℕ} {t : Tree K V H} {c : Ctx K V 0 H}
    {l : Leaf K V} (hl : Located t k c l) (ho : Ordered H t) {es fs : List (K × V)} (cap a b : ℕ)
    (pool : List ℕ) (hne : es≠[]) (hs : Assoc.Sorted (es++(m,w)::fs))
    (hk : ∀ e ∈ es++(m,w)::fs, e.1 = k ∨ e.1 ∈ l.entries.map Prod.fst) :
    Ordered _ (c.insertUp cap (.leaf ⟨a,es⟩) m (.leaf ⟨b,(m,w)::fs⟩) pool).2 := by
  have hp := hl.refill ho hs hk
  obtain ⟨es,e,rfl⟩ : ∃ xs x, es = xs++[x] :=
    ⟨es.dropLast,es.getLast hne,(List.dropLast_append_getLast hne).symm⟩
  rw [Ordered,Ctx.items_insertUp]
  simp only [items_leaf,List.map_append,List.map_cons,List.map_nil,List.append_assoc,
    List.cons_append,List.nil_append] at hp ⊢
  rw [← List.append_assoc] at hp ⊢
  exact pairwise_insert_sep hp

end Order
end Plomvix.Lib.BPlus
