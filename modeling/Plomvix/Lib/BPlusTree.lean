import Mathlib

/-! B+ trees of uniform height whose nodes carry addresses. A tree is read through its
in-order walk: leaf keys and separators in one sequence, which node splits do not change.
The walk is sorted in the sense that a separator may equal the key after it. -/
namespace Plomvix.Lib.BPlus

/-- A leaf: its page and its entries. -/
structure Leaf (K V : Type) where
  id : ℕ
  entries : List (K × V)

/-- An inner node has one more child than it has separators. -/
structure Inner (K α : Type) where
  id : ℕ
  keys : List K
  kids : List α
  fit : kids.length = keys.length+1

/-- Trees by height; every leaf of `Tree K V h` is `h` steps below the root. -/
def Tree (K V : Type) : ℕ → Type
  | 0 => Leaf K V
  | h+1 => Inner K (Tree K V h)

namespace Tree
variable {K V : Type} {h : ℕ}

def leaf (l : Leaf K V) : Tree K V 0 := l
def node (n : Inner K (Tree K V h)) : Tree K V (h+1) := n
def toLeaf (t : Tree K V 0) : Leaf K V := t
def toInner (t : Tree K V (h+1)) : Inner K (Tree K V h) := t

@[simp] lemma toLeaf_leaf (l : Leaf K V) : (leaf l).toLeaf = l := rfl
@[simp] lemma toInner_node (n : Inner K (Tree K V h)) : (node n).toInner = n := rfl
@[simp] lemma leaf_toLeaf (t : Tree K V 0) : leaf t.toLeaf = t := rfl
@[simp] lemma node_toInner (t : Tree K V (h+1)) : node t.toInner = t := rfl

end Tree

/-- A key of a leaf or a separator. -/
inductive Item (K : Type)
  | key (k : K)
  | sep (k : K)

def Item.val {K : Type} : Item K → K
  | .key k => k
  | .sep k => k

section Walk
variable {K V : Type}

def weaveR : List K → List (List (Item K)) → List (Item K)
  | k::ks,c::cs => .sep k::(c++weaveR ks cs)
  | _,_ => []

def weaveL : List K → List (List (Item K)) → List (Item K)
  | k::ks,c::cs => c++.sep k::weaveL ks cs
  | _,_ => []

def weave (ks : List K) : List (List (Item K)) → List (Item K)
  | [] => []
  | c::cs => c++weaveR ks cs

/-- Keys and separators from left to right. -/
def items : (h : ℕ) → Tree K V h → List (Item K)
  | 0,t => t.toLeaf.entries.map (fun e => .key e.1)
  | h+1,t => weave t.toInner.keys (t.toInner.kids.map (items h))

/-- The leaves from left to right. -/
def leaves : (h : ℕ) → Tree K V h → List (Leaf K V)
  | 0,t => [t.toLeaf]
  | h+1,t => t.toInner.kids.flatMap (leaves h)

def rootId : (h : ℕ) → Tree K V h → ℕ
  | 0,t => t.toLeaf.id
  | _+1,t => t.toInner.id

def Inner.map {α β : Type} (f : α → β) (n : Inner K α) : Inner K β :=
  ⟨n.id,n.keys,n.kids.map f,by simp [n.fit]⟩

/-- The inner nodes, with the pages of their children. -/
def inners : (h : ℕ) → Tree K V h → List (Inner K ℕ)
  | 0,_ => []
  | h+1,t => t.toInner.map (rootId h)::t.toInner.kids.flatMap (inners h)

section Unfold
variable {h : ℕ} (l : Leaf K V) (n : Inner K (Tree K V h))

@[simp] lemma items_leaf : items 0 (.leaf l) = l.entries.map (fun e => .key e.1) := rfl
@[simp] lemma items_node : items (h+1) (.node n) = weave n.keys (n.kids.map (items h)) := rfl
@[simp] lemma leaves_leaf : leaves 0 (.leaf l) = [l] := rfl
@[simp] lemma leaves_node : leaves (h+1) (.node n) = n.kids.flatMap (leaves h) := rfl
@[simp] lemma rootId_leaf : rootId 0 (.leaf l) = l.id := rfl
@[simp] lemma rootId_node : rootId (h+1) (.node n) = n.id := rfl
@[simp] lemma inners_leaf : inners 0 (.leaf l) = [] := rfl
@[simp] lemma inners_node :
    inners (h+1) (.node n) = n.map (rootId h)::n.kids.flatMap (inners h) := rfl

end Unfold

def entries (h : ℕ) (t : Tree K V h) : List (K × V) := (leaves h t).flatMap Leaf.entries

def ids (h : ℕ) (t : Tree K V h) : List ℕ := (leaves h t).map Leaf.id++(inners h t).map Inner.id

lemma height_le_inners (h : ℕ) (t : Tree K V h) : h ≤ (inners h t).length := by
  induction h with
  | zero => exact Nat.zero_le _
  | succ h ih =>
    rw [← t.node_toInner,inners_node]
    obtain ⟨u,us,hk⟩ : ∃ u us, t.toInner.kids = u::us :=
      List.exists_cons_of_length_pos (by rw [t.toInner.fit]; omega)
    have hu := ih u
    rw [hk,List.flatMap_cons,List.length_cons,List.length_append]
    omega

lemma rootId_mem_ids (h : ℕ) (t : Tree K V h) : rootId h t ∈ ids h t := by
  cases h with
  | zero => exact List.mem_append_left _ (List.mem_singleton_self _)
  | succ h => exact List.mem_append_right _ (List.mem_cons_self ..)

lemma ids_kid {h : ℕ} {t : Tree K V (h+1)} {u : Tree K V h} (hu : u ∈ t.toInner.kids) {a : ℕ}
    (ha : a ∈ ids h u) : a ∈ ids (h+1) t := by
  cases List.mem_append.mp ha with
  | inl hl =>
    obtain ⟨l,hm,rfl⟩ := List.mem_map.mp hl
    exact List.mem_append_left _ (List.mem_map_of_mem (List.mem_flatMap.mpr ⟨u,hu,hm⟩))
  | inr hi =>
    obtain ⟨n,hn,rfl⟩ := List.mem_map.mp hi
    exact List.mem_append_right _ (List.mem_map_of_mem
      (List.mem_cons_of_mem _ (List.mem_flatMap.mpr ⟨u,hu,hn⟩)))

lemma kid_mem_ids {h : ℕ} {t : Tree K V h} {n : Inner K ℕ} (hn : n ∈ inners h t) {a : ℕ}
    (ha : a ∈ n.kids) : a ∈ ids h t := by
  induction h with
  | zero => simp [inners] at hn
  | succ h ih =>
    cases List.mem_cons.mp hn with
    | inl he =>
      subst he
      obtain ⟨u,hu,rfl⟩ := List.mem_map.mp ha
      exact ids_kid hu (rootId_mem_ids h u)
    | inr hm =>
      obtain ⟨u,hu,hm⟩ := List.mem_flatMap.mp hm
      exact ids_kid hu (ih hm)

theorem forall_ids {P : ℕ → Prop} {h : ℕ} {t : Tree K V h} (hroot : P (rootId h t))
    (hkid : ∀ n ∈ inners h t, P n.id → ∀ a ∈ n.kids, P a) : ∀ a ∈ ids h t, P a := by
  induction h with
  | zero =>
    intro a ha
    rw [show ids 0 t = [rootId 0 t] from rfl] at ha
    exact List.mem_singleton.mp ha ▸ hroot
  | succ h ih =>
    have hsub : ∀ u ∈ t.toInner.kids, ∀ a ∈ ids h u, P a := fun u hu =>
      ih (hkid _ (List.mem_cons_self ..) hroot _ (List.mem_map_of_mem hu)) fun n hn =>
        hkid n (List.mem_cons_of_mem _ (List.mem_flatMap.mpr ⟨u,hu,hn⟩))
    intro a ha
    cases List.mem_append.mp ha with
    | inl hl =>
      obtain ⟨l,hm,rfl⟩ := List.mem_map.mp hl
      obtain ⟨u,hu,hm⟩ := List.mem_flatMap.mp hm
      exact hsub u hu _ (List.mem_append_left _ (List.mem_map_of_mem hm))
    | inr hi =>
      obtain ⟨n,hm,rfl⟩ := List.mem_map.mp hi
      cases List.mem_cons.mp hm with
      | inl he => exact he ▸ hroot
      | inr hm =>
        obtain ⟨u,hu,hm⟩ := List.mem_flatMap.mp hm
        exact hsub u hu _ (List.mem_append_right _ (List.mem_map_of_mem hm))

lemma weave_split (ks js : List K) (cs ds : List (List (Item K))) (c : List (Item K))
    (h : cs.length = ks.length) :
    weave (ks++js) (cs++c::ds) = weaveL ks cs++c++weaveR js ds := by
  induction cs generalizing ks with
  | nil =>
    obtain rfl := List.length_eq_zero_iff.mp h.symm
    simp [weave,weaveL]
  | cons d cs ih =>
    cases ks with
    | nil => simp at h
    | cons k ks =>
      have hh := ih ks (by simpa using h)
      cases cs with
      | nil => simp_all [weave,weaveL,weaveR]
      | cons e cs =>
        simp only [List.cons_append,weave,weaveL,weaveR] at hh ⊢
        rw [hh]
        simp

lemma sep_sublist_weaveR (ks : List K) (cs : List (List (Item K))) (h : cs.length = ks.length) :
    (ks.map Item.sep).Sublist (weaveR ks cs) := by
  induction ks generalizing cs with
  | nil => simp
  | cons k ks ih =>
    cases cs with
    | nil => simp at h
    | cons c cs =>
      exact .cons_cons _ ((ih cs (by simpa using h)).trans (List.sublist_append_right _ _))

lemma sublist_weaveR (ks : List K) (cs : List (List (Item K))) (h : cs.length = ks.length)
    (c : List (Item K)) (hc : c∈cs) : c.Sublist (weaveR ks cs) := by
  induction ks generalizing cs with
  | nil => simp [List.length_eq_zero_iff.mp h] at hc
  | cons k ks ih =>
    cases cs with
    | nil => simp at h
    | cons d cs =>
      rcases List.mem_cons.mp hc with rfl | hc
      · exact .cons _ (List.sublist_append_left _ _)
      · exact .cons _ ((ih cs (by simpa using h) hc).trans (List.sublist_append_right _ _))

lemma sublist_weave (ks : List K) (cs : List (List (Item K))) (h : cs.length = ks.length+1)
    (c : List (Item K)) (hc : c∈cs) : c.Sublist (weave ks cs) := by
  cases cs with
  | nil => simp at h
  | cons d cs =>
    rcases List.mem_cons.mp hc with rfl | hc
    · exact List.sublist_append_left _ _
    · exact (sublist_weaveR ks cs (by simpa using h) c hc).trans (List.sublist_append_right _ _)

def Item.key? : Item K → Option K
  | .key k => some k
  | .sep _ => none

lemma mem_items_of_key {is : List (Item K)} {k : K} (h : k ∈ is.filterMap Item.key?) :
    Item.key k ∈ is := by
  obtain ⟨i,hi,hk⟩ := List.mem_filterMap.mp h
  cases i with
  | key j => cases hk; exact hi
  | sep j => cases hk

lemma filterMap_weaveR (ks : List K) (cs : List (List (Item K))) (h : cs.length = ks.length) :
    (weaveR ks cs).filterMap Item.key? = cs.flatMap (fun c => c.filterMap Item.key?) := by
  induction ks generalizing cs with
  | nil => simp [List.length_eq_zero_iff.mp h,weaveR]
  | cons k ks ih =>
    cases cs with
    | nil => simp at h
    | cons c cs =>
      rw [weaveR,List.filterMap_cons_none rfl,List.filterMap_append,ih cs (by simpa using h)]
      rfl

theorem keys_items (h : ℕ) (t : Tree K V h) :
    (items h t).filterMap Item.key? = (entries h t).map Prod.fst := by
  induction h with
  | zero =>
    change (t.toLeaf.entries.map _).filterMap _ = ([t.toLeaf].flatMap Leaf.entries).map _
    simp [List.filterMap_map,Function.comp_def,Item.key?]
  | succ h ih =>
    rw [← t.node_toInner]
    generalize t.toInner = n
    obtain ⟨a,ks,cs,hf⟩ := n
    cases cs with
    | nil => simp at hf
    | cons c cs =>
      simp only [items_node,List.map_cons,weave,List.filterMap_append,ih,entries,leaves_node,
        List.flatMap_cons,List.flatMap_append,List.map_append]
      rw [filterMap_weaveR _ _ (by simpa using hf)]
      congr 1
      simp only [List.flatMap_map,ih,entries,List.flatMap_assoc,List.map_flatMap]

lemma weaveL_last (ks : List K) (cs : List (List (Item K))) (h : cs.length = ks.length)
    (hk : ks≠[]) : ∃ init, weaveL ks cs = init++[.sep (ks.getLast hk)] := by
  induction ks generalizing cs with
  | nil => simp at hk
  | cons k ks ih =>
    cases cs with
    | nil => simp at h
    | cons c cs =>
      cases ks with
      | nil => exact ⟨c,by simp [weaveL]⟩
      | cons j ks =>
        obtain ⟨init,hi⟩ := ih cs (by simpa using h) (by simp)
        exact ⟨c++.sep k::init,by rw [weaveL,hi]; simp⟩

end Walk

/-- An inner node with one child taken out: what stands left and right of the gap. -/
structure Frame (K α : Type) where
  id : ℕ
  keysL : List K
  kidsL : List α
  keysR : List K
  kidsR : List α
  fitL : kidsL.length = keysL.length
  fitR : kidsR.length = keysR.length

namespace Frame
variable {K α β : Type}

def fill (f : Frame K α) (x : α) : Inner K α :=
  ⟨f.id,f.keysL++f.keysR,f.kidsL++x::f.kidsR,by simp [f.fitL,f.fitR]; omega⟩

def fillTwo (f : Frame K α) (l : α) (k : K) (r : α) : Inner K α :=
  ⟨f.id,f.keysL++k::f.keysR,f.kidsL++l::r::f.kidsR,by simp [f.fitL,f.fitR]; omega⟩

def map (g : α → β) (f : Frame K α) : Frame K β :=
  ⟨f.id,f.keysL,f.kidsL.map g,f.keysR,f.kidsR.map g,by simp [f.fitL],by simp [f.fitR]⟩

def width (f : Frame K α) : ℕ := f.keysL.length+f.keysR.length

end Frame

namespace Inner
variable {K α β : Type}

def focus (n : Inner K α) (i : ℕ) (h : i≤n.keys.length) : Frame K α × α :=
  (⟨n.id,n.keys.take i,n.kids.take i,n.keys.drop i,n.kids.drop (i+1),
    by simp only [List.length_take]; have := n.fit; omega,
    by simp only [List.length_drop]; have := n.fit; omega⟩,
    n.kids.get ⟨i,by have := n.fit; omega⟩)

@[simp] lemma focus_fill (n : Inner K α) (i : ℕ) (h : i≤n.keys.length) :
    (n.focus i h).1.fill (n.focus i h).2 = n := by
  obtain ⟨a,ks,cs,hf⟩ := n
  have hi : i<cs.length := by simp only at h hf; omega
  simp [focus,Frame.fill,List.getElem_cons_drop hi]

def lower (n : Inner K α) (h : 0<n.keys.length) : Inner K α :=
  ⟨n.id,n.keys.take (n.keys.length/2),n.kids.take (n.keys.length/2+1),
    by simp only [List.length_take,n.fit]; omega⟩

def middle (n : Inner K α) (h : 0<n.keys.length) : K :=
  n.keys.get ⟨n.keys.length/2,Nat.div_lt_self h (by decide)⟩

def upper (n : Inner K α) (h : 0<n.keys.length) (a : ℕ) : Inner K α :=
  ⟨a,n.keys.drop (n.keys.length/2+1),n.kids.drop (n.keys.length/2+1),
    by simp only [List.length_drop,n.fit]; omega⟩

lemma keys_split (n : Inner K α) (h : 0<n.keys.length) (a : ℕ) :
    n.keys = (n.lower h).keys++n.middle h::(n.upper h a).keys := by
  simp only [lower,middle,upper,List.get_eq_getElem,List.getElem_cons_drop,List.take_append_drop]

lemma kids_split (n : Inner K α) (h : 0<n.keys.length) (a : ℕ) :
    n.kids = (n.lower h).kids++(n.upper h a).kids := by
  simp [lower,upper]

end Inner

/-- A path from the root of a tree of height `H` down to a gap of height `h`. -/
inductive Ctx (K V : Type) : ℕ → ℕ → Type
  | root {H : ℕ} : Ctx K V H H
  | step {h H : ℕ} (f : Frame K (Tree K V h)) (up : Ctx K V (h+1) H) : Ctx K V h H

namespace Ctx
variable {K V : Type}

def plug : {h H : ℕ} → Ctx K V h H → Tree K V h → Tree K V H
  | _,_,.root,t => t
  | _,_,.step f up,t => up.plug (.node (f.fill t))

def depth : {h H : ℕ} → Ctx K V h H → ℕ
  | _,_,.root => 0
  | _,_,.step _ up => up.depth+1

def itemsL : {h H : ℕ} → Ctx K V h H → List (Item K)
  | _,_,.root => []
  | h,_,.step f up => up.itemsL++weaveL f.keysL (f.kidsL.map (items h))

def itemsR : {h H : ℕ} → Ctx K V h H → List (Item K)
  | _,_,.root => []
  | h,_,.step f up => weaveR f.keysR (f.kidsR.map (items h))++up.itemsR

def leavesL : {h H : ℕ} → Ctx K V h H → List (Leaf K V)
  | _,_,.root => []
  | h,_,.step f up => up.leavesL++f.kidsL.flatMap (leaves h)

def leavesR : {h H : ℕ} → Ctx K V h H → List (Leaf K V)
  | _,_,.root => []
  | h,_,.step f up => f.kidsR.flatMap (leaves h)++up.leavesR

/-- The inner nodes around the gap when a child at address `a` fills it. -/
def inners : {h H : ℕ} → Ctx K V h H → ℕ → List (Inner K ℕ)
  | _,_,.root,_ => []
  | h,_,.step f up,a => (f.map (rootId h)).fill a::
      (f.kidsL.flatMap (BPlus.inners h)++f.kidsR.flatMap (BPlus.inners h)++up.inners f.id)

/-- The frames of the path as addresses, the deepest first. -/
def path : {h H : ℕ} → Ctx K V h H → List (Frame K ℕ)
  | _,_,.root => []
  | h,_,.step f up => f.map (rootId h)::up.path

@[simp] lemma path_length {h H : ℕ} (c : Ctx K V h H) : c.path.length = c.depth := by
  induction c with
  | root => rfl
  | step f up ih => simp [path,depth,ih]

lemma path_node {h H : ℕ} (c : Ctx K V h H) (a : ℕ) :
    ∀ f ∈ c.path, ∃ n ∈ c.inners a, n.id = f.id ∧ n.keys.length = f.width := by
  induction c generalizing a with
  | root => simp [path]
  | @step h H g up ih =>
    intro f hf
    cases List.mem_cons.mp hf with
    | inl he => exact ⟨_,List.mem_cons_self ..,by simp [he,Frame.fill],by simp [he,Frame.fill,Frame.width]⟩
    | inr hm =>
      obtain ⟨n,hn,hx⟩ := ih g.id f hm
      exact ⟨n,List.mem_cons_of_mem _ (List.mem_append_right _ hn),hx⟩

lemma path_sublist {h H : ℕ} (c : Ctx K V h H) (a : ℕ) :
    (c.path.map Frame.id).Sublist ((c.inners a).map Inner.id) := by
  induction c generalizing a with
  | root => exact List.Sublist.refl _
  | @step h H g up ih =>
    rw [path,inners,List.map_cons,List.map_cons]
    refine .cons_cons _ ((ih g.id).trans ?_)
    rw [List.map_append]
    exact List.sublist_append_right _ _

theorem items_plug {h H : ℕ} (c : Ctx K V h H) (t : Tree K V h) :
    items H (c.plug t) = c.itemsL++items h t++c.itemsR := by
  induction c with
  | root => simp [plug,itemsL,itemsR]
  | step f up ih =>
    rw [plug,ih,itemsL,itemsR,items_node]
    simp only [Frame.fill,List.map_append,List.map_cons]
    rw [weave_split _ _ _ _ _ (by simp [f.fitL])]
    simp

theorem leaves_plug {h H : ℕ} (c : Ctx K V h H) (t : Tree K V h) :
    leaves H (c.plug t) = c.leavesL++leaves h t++c.leavesR := by
  induction c with
  | root => simp [plug,leavesL,leavesR]
  | step f up ih =>
    rw [plug,ih,leavesL,leavesR,leaves_node]
    simp [Frame.fill]

theorem inners_plug {h H : ℕ} (c : Ctx K V h H) (t : Tree K V h) :
    (BPlus.inners H (c.plug t)).Perm (c.inners (rootId h t)++BPlus.inners h t) := by
  classical
  induction c with
  | root => simp [plug,inners]
  | @step h H f up ih =>
    have he : (f.fill t).map (rootId h) = (f.map (rootId h)).fill (rootId h t) := by
      simp [Inner.map,Frame.fill,Frame.map]
    rw [plug]
    refine (ih _).trans (List.perm_iff_count.mpr fun a => ?_)
    rw [inners,inners_node,he]
    simp only [rootId_node,Frame.fill,List.flatMap_append,List.flatMap_cons,List.count_append,
      List.count_cons]
    omega

end Ctx

section Order
variable {K V : Type} [LinearOrder K]

def Item.Before : Item K → Item K → Prop
  | .sep a,.key b => a≤b
  | .sep a,.sep b => a<b
  | .key a,.key b => a<b
  | .key a,.sep b => a<b

lemma Item.Before.trans {a b c : Item K} (h : a.Before b) (g : b.Before c) : a.Before c := by
  cases a <;> cases b <;> cases c <;> simp only [Item.Before] at h g ⊢
  all_goals first | exact lt_trans h g | exact lt_of_lt_of_le h g | exact lt_of_le_of_lt h g | skip
  all_goals first | exact (lt_of_le_of_lt h g).le | exact (lt_of_lt_of_le h g).le

/-- The in-order walk of a search tree is sorted. -/
def Ordered (h : ℕ) (t : Tree K V h) : Prop := (items h t).Pairwise Item.Before

lemma sep_mem_items {K V : Type} {h : ℕ} {t : Tree K V h} {n : Inner K ℕ} (hn : n ∈ inners h t) {k : K}
    (hk : k ∈ n.keys) : Item.sep k ∈ items h t := by
  induction h with
  | zero => simp [inners] at hn
  | succ h ih =>
    rw [← t.node_toInner] at hn ⊢
    generalize t.toInner = m at hn ⊢
    obtain ⟨a,ks,cs,hf⟩ := m
    rw [items_node]
    cases List.mem_cons.mp hn with
    | inl he =>
      subst he
      cases cs with
      | nil => simp at hf
      | cons c cs =>
        have hs := sep_sublist_weaveR ks (cs.map (items h)) (by simpa using hf)
        exact List.mem_append_right _ (hs.subset (List.mem_map_of_mem hk))
    | inr hm =>
      obtain ⟨c,hc,hm⟩ := List.mem_flatMap.mp hm
      exact (sublist_weave ks _ (by simpa using hf) _ (List.mem_map_of_mem hc)).subset (ih hm)

lemma key_mem_items {K V : Type} {h : ℕ} {t : Tree K V h} {e : K × V} (he : e ∈ entries h t) :
    Item.key e.1 ∈ items h t := by
  have hm : e.1 ∈ (items h t).filterMap Item.key? := by
    rw [keys_items]
    exact List.mem_map_of_mem he
  exact mem_items_of_key hm

theorem Ordered.entries {h : ℕ} {t : Tree K V h} (ho : Ordered h t) :
    ((entries h t).map Prod.fst).Pairwise (·<·) := by
  rw [← keys_items]
  refine List.Pairwise.filterMap _ ?_ ho
  intro a b hab k hk l hl
  cases a <;> cases b <;> simp_all [Item.key?,Item.Before]

theorem Ordered.inner_keys {h : ℕ} {t : Tree K V h} (ho : Ordered h t) (n : Inner K ℕ)
    (hn : n∈inners h t) : n.keys.Pairwise (·<·) := by
  induction h with
  | zero => simp [inners] at hn
  | succ h ih =>
    rw [← t.node_toInner] at ho hn
    generalize t.toInner = m at ho hn
    obtain ⟨a,ks,cs,hf⟩ := m
    simp only [Ordered,items_node] at ho
    rcases List.mem_cons.mp hn with rfl | hn
    · cases cs with
      | nil => simp at hf
      | cons c cs =>
        have hs := ho.sublist ((sep_sublist_weaveR ks (cs.map (items h)) (by simpa using hf)).trans
          (List.sublist_append_right (items h c) _))
        simpa [List.pairwise_map,Item.Before,Inner.map] using hs
    · obtain ⟨c,hc,hn⟩ := List.mem_flatMap.mp hn
      exact ih (ho.sublist (sublist_weave ks _ (by simpa using hf) _ (List.mem_map_of_mem hc))) hn

/-- The index of the child that holds `k`: the first separator above `k` bounds it. -/
def upperIdx (k : K) : List K → ℕ
  | [] => 0
  | x::xs => if k<x then 0 else upperIdx k xs+1

lemma upperIdx_le (k : K) (ks : List K) : upperIdx k ks≤ks.length := by
  induction ks with
  | nil => rfl
  | cons x xs ih => rw [upperIdx]; split <;> simp [ih]

lemma le_of_mem_take_upperIdx (k : K) (ks : List K) : ∀ x∈ks.take (upperIdx k ks), x≤k := by
  induction ks with
  | nil => simp [upperIdx]
  | cons x xs ih =>
    rw [upperIdx]
    split
    · simp
    · intro y hy
      rcases List.mem_cons.mp (by simpa using hy) with rfl | hy
      · exact not_lt.mp ‹_›
      · exact ih y hy

lemma lt_head_drop_upperIdx (k : K) (ks : List K) :
    ∀ x∈(ks.drop (upperIdx k ks)).head?, k<x := by
  induction ks with
  | nil => simp [upperIdx]
  | cons x xs ih =>
    rw [upperIdx]
    split
    · simpa
    · simpa using ih

end Order

/-- A rule that picks a child from the separators of a node. -/
structure Route (K : Type) where
  pick : List K → ℕ
  le : ∀ ks, pick ks≤ks.length

def Route.upper {K : Type} [LinearOrder K] (k : K) : Route K := ⟨upperIdx k,upperIdx_le k⟩
def Route.first {K : Type} : Route K := ⟨fun _ => 0,fun _ => Nat.zero_le _⟩

section Descend
variable {K V : Type}

/-- Follow a route to a leaf, keeping the path taken. -/
def descend (r : Route K) : (h : ℕ) → {H : ℕ} → Tree K V h → Ctx K V h H → Ctx K V 0 H × Leaf K V
  | 0,_,t,c => (c,t.toLeaf)
  | h+1,_,t,c =>
    let p := t.toInner.focus (r.pick t.toInner.keys) (r.le _)
    descend r h p.2 (.step p.1 c)

theorem descend_plug (r : Route K) (h : ℕ) {H : ℕ} (t : Tree K V h) (c : Ctx K V h H) :
    (descend r h t c).1.plug (.leaf (descend r h t c).2) = c.plug t := by
  induction h with
  | zero => rfl
  | succ h ih =>
    rw [descend,ih,Ctx.plug,Inner.focus_fill,Tree.node_toInner]

theorem descend_depth (r : Route K) (h : ℕ) {H : ℕ} (t : Tree K V h) (c : Ctx K V h H) :
    (descend r h t c).1.depth = c.depth+h := by
  induction h with
  | zero => rfl
  | succ h ih => rw [descend]; simp only [ih,Ctx.depth]; omega

def Leftmost : {h H : ℕ} → Ctx K V h H → Prop
  | _,_,.root => True
  | _,_,.step f up => f.kidsL = [] ∧ Leftmost up

lemma Leftmost.leavesL {h H : ℕ} {c : Ctx K V h H} (hc : Leftmost c) : c.leavesL = [] := by
  induction c with
  | root => rfl
  | step f up ih => simp [Ctx.leavesL,hc.1,ih hc.2]

lemma descend_first (h : ℕ) {H : ℕ} (t : Tree K V h) (c : Ctx K V h H) (hc : Leftmost c) :
    Leftmost (descend .first h t c).1 := by
  induction h with
  | zero => exact hc
  | succ h ih => exact ih _ _ ⟨by simp [Inner.focus,Route.first],hc⟩

end Descend

section Guided
variable {K V : Type} [LinearOrder K]

def Guided (k : K) : {h H : ℕ} → Ctx K V h H → Prop
  | _,_,.root => True
  | _,_,.step f up => (∀ x∈f.keysL, x≤k) ∧ (∀ x∈f.keysR.head?, k<x) ∧ Guided k up

lemma descend_upper (k : K) (h : ℕ) {H : ℕ} (t : Tree K V h) (c : Ctx K V h H)
    (hc : Guided k c) : Guided k (descend (.upper k) h t c).1 := by
  induction h with
  | zero => exact hc
  | succ h ih =>
    exact ih _ _ ⟨le_of_mem_take_upperIdx k _,lt_head_drop_upperIdx k _,hc⟩

theorem Guided.left {k : K} {h H : ℕ} {c : Ctx K V h H} (hg : Guided k c)
    (ho : c.itemsL.Pairwise Item.Before) : ∀ i∈c.itemsL, i.Before (.key k) := by
  induction c with
  | root => simp [Ctx.itemsL]
  | @step h H f up ih =>
    intro i hi
    by_cases hk : f.keysL = []
    · have he : (Ctx.step f up).itemsL = up.itemsL := by simp [Ctx.itemsL,hk,weaveL]
      rw [he] at hi ho
      exact ih hg.2.2 ho i hi
    · obtain ⟨init,hw⟩ := weaveL_last f.keysL (f.kidsL.map (items h)) (by simp [f.fitL]) hk
      have hx : (Item.sep (f.keysL.getLast hk)).Before (.key k) := hg.1 _ (List.getLast_mem hk)
      rw [Ctx.itemsL,hw,← List.append_assoc] at hi ho
      rcases List.mem_append.mp hi with hi | hi
      · exact ((List.pairwise_append.mp ho).2.2 i hi _ (by simp)).trans hx
      · rw [List.mem_singleton.mp hi]
        exact hx

theorem Guided.right {k : K} {h H : ℕ} {c : Ctx K V h H} (hg : Guided k c)
    (ho : c.itemsR.Pairwise Item.Before) : ∀ i∈c.itemsR, (Item.key k).Before i := by
  induction c with
  | root => simp [Ctx.itemsR]
  | @step h H f up ih =>
    intro i hi
    cases hk : f.keysR with
    | nil =>
      have he : (Ctx.step f up).itemsR = up.itemsR := by simp [Ctx.itemsR,hk,weaveR]
      rw [he] at hi ho
      exact ih hg.2.2 ho i hi
    | cons x xs =>
      have hx : (Item.key k).Before (.sep x) := hg.2.1 x (by simp [hk])
      have hl := f.fitR
      rw [hk] at hl
      cases hc : f.kidsR with
      | nil => simp [hc] at hl
      | cons d ds =>
        rw [Ctx.itemsR,hk,hc,List.map_cons,weaveR,List.cons_append] at hi ho
        rcases List.mem_cons.mp hi with rfl | hi
        · exact hx
        · exact hx.trans ((List.pairwise_cons.mp ho).1 i hi)

end Guided
end Plomvix.Lib.BPlus
