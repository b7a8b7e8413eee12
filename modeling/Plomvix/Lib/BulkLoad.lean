import Plomvix.Lib.BPlusTree
import Plomvix.Lib.Fallible

/-! Trees built from the leaves up. The nodes of one level are grouped in order, a fixed
number to a parent, until one node is left. Which separators the parents get is a parameter:
the leaves come out in order whatever they are, searches need them to be right. -/
namespace Plomvix.Lib

section Chunks
variable {α : Type}

/-- The `i`-th of the pieces of length `w` that a list is cut into. -/
def chunk (w i : ℕ) (l : List α) : List α := (l.drop (i*w)).take w

/-- The number of pieces; the last one may be short. -/
def chunkCount (w n : ℕ) : ℕ := (n+w-1)/w

lemma chunk_length (w i : ℕ) (l : List α) : (chunk w i l).length = min w (l.length-i*w) := by
  simp [chunk]

lemma chunk_map {β : Type} (f : α → β) (w i : ℕ) (l : List α) :
    chunk w i (l.map f) = (chunk w i l).map f := by
  simp [chunk]

lemma chunk_zero {w : ℕ} {l : List α} (h : l.length ≤ w) : chunk w 0 l = l := by
  simp [chunk,List.take_of_length_le h]

lemma flatMap_chunk_take (w m : ℕ) (l : List α) :
    (List.range m).flatMap (fun i => chunk w i l) = l.take (m*w) := by
  induction m with
  | zero => simp
  | succ m ih =>
    rw [List.range_succ,List.flatMap_append,ih,Nat.succ_mul,List.take_add]
    simp [chunk]

variable {w : ℕ} (hw : 0 < w)
include hw

lemma le_chunkCount_mul (n : ℕ) : n ≤ chunkCount w n*w := by
  have h := Nat.lt_mul_div_succ (n+w-1) hw
  rw [Nat.mul_succ,Nat.mul_comm] at h
  unfold chunkCount
  omega

lemma mul_lt_of_lt_chunkCount {i n : ℕ} (h : i < chunkCount w n) : i*w < n := by
  have h1 := (Nat.le_div_iff_mul_le hw).mp (show i+1 ≤ (n+w-1)/w from h)
  rw [Nat.succ_mul] at h1
  omega

theorem flatMap_chunk (l : List α) :
    (List.range (chunkCount w l.length)).flatMap (fun i => chunk w i l) = l := by
  rw [flatMap_chunk_take]
  exact List.take_of_length_le (le_chunkCount_mul hw _)

lemma chunk_pos {i : ℕ} {l : List α} (h : i < chunkCount w l.length) : 0 < (chunk w i l).length := by
  have h1 := mul_lt_of_lt_chunkCount hw h
  rw [chunk_length]
  omega

lemma chunkCount_eq_one {n : ℕ} (h0 : 0 < n) (hn : n ≤ w) : chunkCount w n = 1 := by
  unfold chunkCount
  rw [Nat.div_eq_iff hw]
  omega

lemma two_le_chunkCount {n : ℕ} (hn : w < n) : 2 ≤ chunkCount w n := by
  unfold chunkCount
  rw [Nat.le_div_iff_mul_le hw]
  omega

lemma chunkCount_pos {n : ℕ} (hn : 0 < n) : 0 < chunkCount w n := by
  unfold chunkCount
  exact Nat.div_pos (by omega) hw

end Chunks

lemma chunkCount_lt {w n : ℕ} (hw : 2 ≤ w) (hn : 2 ≤ n) : chunkCount w n < n := by
  rw [chunkCount,Nat.div_lt_iff_lt_mul (by omega)]
  have h : n+w ≤ n*w := by nlinarith
  omega

namespace BPlus
variable {K V : Type}

lemma leaves_pos (h : ℕ) (t : Tree K V h) : 0 < (leaves h t).length := by
  induction h with
  | zero => exact Nat.one_pos
  | succ h ih =>
    obtain ⟨u,us,hk⟩ : ∃ u us, t.toInner.kids = u::us :=
      List.exists_cons_of_length_pos (by rw [t.toInner.fit]; omega)
    rw [← t.node_toInner,leaves_node,hk,List.flatMap_cons,List.length_append]
    exact Nat.add_pos_left (ih u) _

lemma length_le_flatMap {α β : Type} {f : α → List β} (l : List α) (h : ∀ a ∈ l, 0 < (f a).length) :
    l.length ≤ (l.flatMap f).length := by
  induction l with
  | nil => exact le_refl _
  | cons a l ih =>
    have ha := h a (List.mem_cons_self ..)
    have hl := ih fun x hx => h x (List.mem_cons_of_mem _ hx)
    rw [List.flatMap_cons,List.length_append,List.length_cons]
    omega

section Build
variable (w : ℕ) (seps : ℕ → ℕ → List K) (P : Inner K ℕ → Prop)

/-- One level over another. `seps i c` are the separators of the `i`-th node with `c` children. -/
def Parents {h : ℕ} (ts : List (Tree K V h)) (ns : List (Tree K V (h+1))) : Prop :=
  List.Forall₂ (fun i n => n.toInner.kids = chunk w i ts ∧
    n.toInner.keys = seps i (chunk w i ts).length ∧ P (n.toInner.map (rootId h)))
    (List.range (chunkCount w ts.length)) ns

/-- The tree that level after level leads to, every new node with the property `P`. -/
inductive Built : (h : ℕ) → List (Tree K V h) → ((H : ℕ) × Tree K V H) → Prop
  | single {h : ℕ} (t : Tree K V h) : Built h [t] ⟨h,t⟩
  | level {h : ℕ} {ts : List (Tree K V h)} {ns : List (Tree K V (h+1))} {x : (H : ℕ) × Tree K V H}
      (two : 2 ≤ ts.length) (hp : Parents w seps P ts ns) (hb : Built (h+1) ns x) : Built h ts x

end Build

section Facts
variable {w : ℕ} {seps : ℕ → ℕ → List K} {P : Inner K ℕ → Prop} {h : ℕ} {ts : List (Tree K V h)}
  {x : (H : ℕ) × Tree K V H}

lemma Parents.length {ns : List (Tree K V (h+1))} (hp : Parents w seps P ts ns) :
    ns.length = chunkCount w ts.length := by
  rw [← List.Forall₂.length_eq hp,List.length_range]

lemma Parents.flatMap_kids (hw : 0 < w) {ns : List (Tree K V (h+1))} (hp : Parents w seps P ts ns) :
    ns.flatMap (fun n => n.toInner.kids) = ts := by
  rw [forall₂_flatMap (f := fun i => chunk w i ts) (List.Forall₂.imp (fun _ _ hx => hx.1) hp)]
  exact flatMap_chunk hw ts

lemma Parents.first {ns : List (Tree K V (h+1))} (hp : Parents w seps P ts ns) {n : Tree K V (h+1)}
    (hn : n ∈ ns.head?) :
    n.toInner.kids = chunk w 0 ts ∧ n.toInner.keys = seps 0 (chunk w 0 ts).length ∧
      P (n.toInner.map (rootId h)) := by
  unfold Parents at hp
  cases hc : chunkCount w ts.length with
  | zero =>
    rw [hc,List.range_zero,List.forall₂_nil_left_iff] at hp
    simp [hp] at hn
  | succ c =>
    rw [hc,List.range_succ_eq_map] at hp
    cases hp with
    | cons hx _ =>
      obtain rfl := Option.mem_some.mp hn
      exact hx

lemma Built.mono {Q : Inner K ℕ → Prop} (hPQ : ∀ n, P n → Q n)
    (hb : Built w seps P h ts x) : Built w seps Q h ts x := by
  induction hb with
  | single t => exact .single t
  | level two hp _ ih =>
    refine .level two (List.Forall₂.imp (fun _ _ hx => ?_) hp) ih
    exact ⟨hx.1,hx.2.1,hPQ _ hx.2.2⟩

theorem Built.leaves (hw : 0 < w) (hb : Built w seps P h ts x) :
    leaves x.1 x.2 = ts.flatMap (leaves h) := by
  induction hb with
  | single t => simp
  | @level h ts ns x _ hp _ ih =>
    have hk := congrArg (List.flatMap (BPlus.leaves h)) (hp.flatMap_kids hw)
    rw [List.flatMap_assoc] at hk
    exact ih.trans hk

theorem Built.inners (hw : 0 < w) (hb : Built w seps P h ts x)
    (h0 : ∀ t ∈ ts, ∀ n ∈ inners h t, P n) : ∀ n ∈ inners x.1 x.2, P n := by
  induction hb with
  | single t => exact h0 t (List.mem_singleton_self t)
  | @level h ts ns x _ hp _ ih =>
    apply ih
    intro n hn m hm
    obtain ⟨i,-,-,-,hP⟩ := forall₂_mem hp hn
    cases List.mem_cons.mp hm with
    | inl he => exact he ▸ hP
    | inr hm =>
      obtain ⟨u,hu,hm⟩ := List.mem_flatMap.mp hm
      refine h0 u ?_ m hm
      rw [← hp.flatMap_kids hw]
      exact List.mem_flatMap.mpr ⟨n,hn,hu⟩

theorem Built.ids_subset (hw : 0 < w) (hb : Built w seps P h ts x) :
    ∀ t ∈ ts, ids h t ⊆ ids x.1 x.2 := by
  induction hb with
  | single t =>
    intro u hu
    rw [List.mem_singleton.mp hu]
    exact List.Subset.refl _
  | @level h ts ns x _ hp _ ih =>
    intro t ht
    rw [← hp.flatMap_kids hw] at ht
    obtain ⟨n,hn,ht⟩ := List.mem_flatMap.mp ht
    exact fun a ha => ih n hn (ids_kid ht ha)

lemma Built.height_lt (hw : 2 ≤ w) (hb : Built w seps P h ts x) :
    x.1 < h+ts.length := by
  induction hb with
  | single t => simp
  | @level h ts ns x two hp _ ih =>
    have hlt := chunkCount_lt hw two
    have hlen := hp.length
    omega

lemma Built.of_single {t : Tree K V h} (hb : Built w seps P h [t] x) :
    x = ⟨h,t⟩ := by
  cases hb with
  | single => rfl
  | level two _ _ => simp at two

theorem Built.small (hw : 0 < w) (hb : Built w seps P h ts x)
    (two : 2 ≤ ts.length) (hle : ts.length ≤ w) :
    ∃ n : Inner K (Tree K V h), x = ⟨h+1,.node n⟩ ∧ n.kids = ts ∧ n.keys = seps 0 ts.length ∧
      P (n.map (rootId h)) := by
  cases hb with
  | single t => simp at two
  | @level _ _ ns _ _ hp hb =>
    have hlen := hp.length
    rw [chunkCount_eq_one hw (by omega) hle] at hlen
    obtain ⟨n,rfl⟩ := List.length_eq_one_iff.mp hlen
    obtain ⟨hk,hs,hP⟩ := hp.first (n := n) rfl
    rw [chunk_zero hle] at hk hs
    exact ⟨n.toInner,hb.of_single,hk,hs,hP⟩

/-- The root has the first separators that were made for it, and a first child with as many
leaves as the first tree of the level below had. -/
theorem Built.top (hw : 0 < w) (hb : Built w seps P h ts x) {m : ℕ}
    (hm : m ≤ w) (two : 2 ≤ ts.length) (hfirst : ∀ t ∈ ts.head?, m ≤ (BPlus.leaves h t).length) :
    ∃ (h' : ℕ) (n : Inner K (Tree K V h')), x = ⟨h'+1,.node n⟩ ∧ 2 ≤ n.kids.length ∧
      n.keys = seps 0 n.kids.length ∧ ∀ u ∈ n.kids.head?, m ≤ (BPlus.leaves h' u).length := by
  induction hb with
  | single t => simp at two
  | @level h ts ns x _ hp hb ih =>
    by_cases hle : ts.length ≤ w
    · obtain ⟨n,hx,hk,hs,-⟩ := (Built.level two hp hb).small hw two hle
      exact ⟨h,n,hx,hk ▸ two,hk ▸ hs,hk ▸ hfirst⟩
    · refine ih (hp.length ▸ two_le_chunkCount hw (not_le.mp hle)) fun n hn => ?_
      obtain ⟨hk,-⟩ := hp.first hn
      have hlen : w ≤ n.toInner.kids.length := by
        rw [hk,chunk_length]
        omega
      rw [← n.node_toInner,leaves_node]
      exact hm.trans (hlen.trans (length_le_flatMap _ fun u _ => leaves_pos h u))

/-- More leaves than fit under one node: the root's first child has at least that many. -/
theorem Built.wide (hw : 0 < w) (hb : Built w seps P h ts x) (hwide : w < ts.length) :
    ∃ (h' : ℕ) (n : Inner K (Tree K V h')), x = ⟨h'+1,.node n⟩ ∧ 2 ≤ n.kids.length ∧
      n.keys = seps 0 n.kids.length ∧ ∀ u ∈ n.kids.head?, w ≤ (BPlus.leaves h' u).length := by
  cases hb with
  | single t =>
    simp only [List.length_singleton] at hwide
    omega
  | @level _ _ ns _ two hp hb =>
    refine hb.top hw (le_refl w) (hp.length ▸ two_le_chunkCount hw hwide) fun n hn => ?_
    obtain ⟨hk,-⟩ := hp.first hn
    have hlen : w ≤ n.toInner.kids.length := by
      rw [hk,chunk_length]
      omega
    rw [← n.node_toInner,leaves_node]
    exact hlen.trans (length_le_flatMap _ fun u _ => leaves_pos h u)

lemma inners_over_leaves {n : Inner K (Tree K V 0)} {ls : List (Leaf K V)}
    (hkids : n.kids = ls.map .leaf) :
    inners 1 (.node n) = [n.map (rootId 0)] := by
  rw [inners_node,hkids,List.flatMap_map]
  simp

end Facts

section Search
variable {h : ℕ}

lemma descend_mem_leaves (r : Route K) {H : ℕ} (t : Tree K V h) (c : Ctx K V h H) :
    (descend r h t c).2 ∈ leaves h t := by
  induction h with
  | zero => exact List.mem_singleton_self _
  | succ h ih =>
    rw [← t.node_toInner,leaves_node]
    exact List.mem_flatMap.mpr ⟨_,List.get_mem ..,ih _ _⟩

lemma descend_tail (r : Route K) {H : ℕ} (n : Inner K (Tree K V h)) (c : Ctx K V (h+1) H)
    (hr : 0 < r.pick n.keys) : (descend r (h+1) (.node n) c).2 ∈ n.kids.tail.flatMap (leaves h) := by
  refine List.mem_flatMap.mpr ⟨_,?_,descend_mem_leaves r _ _⟩
  have hle := r.le n.keys
  have hfit := n.fit
  rw [List.mem_iff_getElem]
  refine ⟨r.pick n.keys-1,by rw [List.length_tail]; omega,?_⟩
  simp only [List.getElem_tail,Nat.sub_add_cancel hr]
  rfl

variable [LinearOrder K]

lemma weaveR_before {ls : List (List K)} (hs : ls.flatten.Pairwise (· < ·)) {ks : List K}
    (hk : ks.map some = ls.map List.head?) :
    (weaveR ks (ls.map (List.map Item.key))).Pairwise Item.Before ∧
      ∀ i ∈ weaveR ks (ls.map (List.map Item.key)), i.val ∈ ls.flatten := by
  induction ls generalizing ks with
  | nil =>
    obtain rfl : ks = [] := by simpa using hk
    simp [weaveR]
  | cons l ls ih =>
    obtain ⟨k,ks,rfl⟩ : ∃ k js, ks = k::js := by
      cases ks with
      | nil => simp at hk
      | cons k js => exact ⟨k,js,rfl⟩
    obtain ⟨hk0,hk1⟩ := List.cons.inj hk
    obtain ⟨l,rfl⟩ : ∃ m, l = k::m := by
      cases l with
      | nil => simp at hk0
      | cons a m => exact ⟨m,by simpa using hk0.symm⟩
    rw [List.flatten_cons,List.pairwise_append] at hs
    obtain ⟨hl,hrest,hcross⟩ := hs
    obtain ⟨ih1,ih2⟩ := ih hrest hk1
    have hafter : ∀ a ∈ k::l, ∀ i ∈ weaveR ks (ls.map (List.map Item.key)), a < i.val :=
      fun a ha i hi => hcross a ha _ (ih2 i hi)
    rw [List.map_cons,weaveR]
    refine ⟨?_,?_⟩
    · rw [List.pairwise_cons,List.pairwise_append]
      refine ⟨fun i hi => ?_,?_,ih1,fun a ha i hi => ?_⟩
      · cases List.mem_append.mp hi with
        | inl hi =>
          obtain ⟨a,ha,rfl⟩ := List.mem_map.mp hi
          cases List.mem_cons.mp ha with
          | inl he => exact he ▸ le_refl k
          | inr hm => exact ((List.pairwise_cons.mp hl).1 a hm).le
        | inr hi =>
          have hlt := hafter k (List.mem_cons_self ..) i hi
          cases i with
          | key b => exact hlt.le
          | sep b => exact hlt
      · exact List.pairwise_map.mpr hl
      · obtain ⟨b,hb,rfl⟩ := List.mem_map.mp ha
        have hlt := hafter b hb i hi
        cases i <;> exact hlt
    · intro i hi
      rw [List.flatten_cons,List.mem_append]
      cases List.mem_cons.mp hi with
      | inl he => exact .inl (he ▸ List.mem_cons_self ..)
      | inr hi =>
        cases List.mem_append.mp hi with
        | inl hi =>
          obtain ⟨a,ha,rfl⟩ := List.mem_map.mp hi
          exact .inl ha
        | inr hi => exact .inr (ih2 i hi)

theorem ordered_over_leaves {n : Inner K (Tree K V 0)} {ls : List (Leaf K V)}
    (hkids : n.kids = ls.map .leaf)
    (hkeys : n.keys.map some = ls.tail.map (fun l => (l.entries.map Prod.fst).head?))
    (hs : ((ls.flatMap Leaf.entries).map Prod.fst).Pairwise (· < ·)) :
    Ordered 1 (.node n) ∧ ∀ i ∈ items 1 (.node n), i.val ∈ (ls.flatMap Leaf.entries).map Prod.fst := by
  have hitems : items 1 (.node n) =
      weave n.keys ((ls.map fun l => l.entries.map Prod.fst).map (List.map Item.key)) := by
    rw [items_node,hkids,List.map_map,List.map_map]
    congr 1
    apply List.map_congr_left
    intro l _
    simp
  cases ls with
  | nil =>
    have hfit := n.fit
    rw [hkids] at hfit
    simp at hfit
  | cons l ls =>
    rw [List.flatMap_cons,List.map_append] at hs ⊢
    obtain ⟨hl,hrest,hcross⟩ := List.pairwise_append.mp hs
    have hflat : (ls.map fun l => l.entries.map Prod.fst).flatten =
        (ls.flatMap Leaf.entries).map Prod.fst := by
      rw [List.map_flatMap]
      rfl
    rw [← hflat] at hrest hcross ⊢
    have hseps : n.keys.map some = (ls.map fun l => l.entries.map Prod.fst).map List.head? := by
      rw [hkeys,List.map_map]
      rfl
    obtain ⟨hb,hin⟩ := weaveR_before hrest hseps
    rw [Ordered,hitems]
    refine ⟨List.pairwise_append.mpr ⟨List.pairwise_map.mpr hl,hb,fun a ha i hi => ?_⟩,fun i hi => ?_⟩
    · obtain ⟨k,hk,rfl⟩ := List.mem_map.mp ha
      have hlt := hcross k hk _ (hin i hi)
      cases i <;> exact hlt
    · rw [List.mem_append]
      cases List.mem_append.mp hi with
      | inl hi =>
        obtain ⟨k,hk,rfl⟩ := List.mem_map.mp hi
        exact .inl hk
      | inr hi => exact .inr (hin i hi)

end Search
end BPlus
end Plomvix.Lib
