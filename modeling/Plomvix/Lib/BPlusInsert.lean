import Plomvix.Lib.BPlusTree

/-! Inserting a split upwards along a path. A full node is cut at its middle separator,
which moves up; a split of the root makes a new root. The walk changes only by the
separator inserted at the bottom. -/
namespace Plomvix.Lib.BPlus

lemma weave_join {K : Type} (ks js : List K) (m : K) (cs ds : List (List (Item K)))
    (hc : cs.length = ks.length+1) (hd : ds.length = js.length+1) :
    weave (ks++m::js) (cs++ds) = weave ks cs++.sep m::weave js ds := by
  obtain ⟨cs,c,rfl⟩ : ∃ a x, cs = a++[x] :=
    ⟨cs.dropLast,cs.getLast (by rintro rfl; simp at hc),(List.dropLast_append_getLast _).symm⟩
  have hl : cs.length = ks.length := by simpa using hc
  have he := weave_split ks [] cs [] c hl
  rw [List.append_nil] at he
  cases ds with
  | nil => simp at hd
  | cons d ds =>
    rw [List.append_assoc,List.singleton_append,weave_split ks (m::js) cs (d::ds) c hl,he,weaveR]
    simp [weave,weaveR]

namespace Inner
variable {K α β : Type}

@[simp] lemma lower_map (g : α → β) (n : Inner K α) (h : 0<n.keys.length) :
    (n.lower h).map g = (n.map g).lower h := by simp [lower,map]

@[simp] lemma upper_map (g : α → β) (n : Inner K α) (h : 0<n.keys.length) (a : ℕ) :
    (n.upper h a).map g = (n.map g).upper h a := by simp [upper,map]

@[simp] lemma fillTwo_map (g : α → β) (f : Frame K α) (l r : α) (k : K) :
    (f.fillTwo l k r).map g = (f.map g).fillTwo (g l) k (g r) := by
  simp [Frame.fillTwo,Frame.map,map]

end Inner

namespace Frame
variable {K α : Type}

lemma fillTwo_pos (f : Frame K α) (l r : α) (k : K) : 0<(f.fillTwo l k r).keys.length := by
  simp [fillTwo]

lemma fillTwo_length (f : Frame K α) (l r : α) (k : K) :
    (f.fillTwo l k r).keys.length = f.width+1 := by
  simp only [fillTwo,width,List.length_append,List.length_cons]
  omega

end Frame

namespace Ctx
variable {K V : Type}

/-- Replace the gap by two trees and a separator, splitting full nodes on the way up.
New nodes take their addresses from `pool`. -/
def insertUp (cap : ℕ) : {h H : ℕ} → Ctx K V h H → Tree K V h → K → Tree K V h → List ℕ →
    (G : ℕ) × Tree K V G
  | _,H,.root,l,k,r,pool => ⟨H+1,.node ⟨pool.headD 0,[k],[l,r],rfl⟩⟩
  | _,H,.step f up,l,k,r,pool =>
    if f.width<cap then ⟨H,up.plug (.node (f.fillTwo l k r))⟩
    else
      let n := f.fillTwo l k r
      let hn := f.fillTwo_pos l r k
      up.insertUp cap (.node (n.lower hn)) (n.middle hn) (.node (n.upper hn (pool.headD 0))) pool.tail

/-- The nodes that `insertUp` writes, computed from the addresses on the path. -/
def climb (cap : ℕ) : List (Frame K ℕ) → ℕ → K → ℕ → List ℕ → List (Inner K ℕ)
  | [],l,k,r,pool => [⟨pool.headD 0,[k],[l,r],rfl⟩]
  | f::up,l,k,r,pool =>
    if f.width<cap then [f.fillTwo l k r]
    else
      let n := f.fillTwo l k r
      let hn := f.fillTwo_pos l r k
      n.lower hn::n.upper hn (pool.headD 0)::climb cap up f.id (n.middle hn) (pool.headD 0) pool.tail

def newRoot (cap : ℕ) : List (Frame K ℕ) → List ℕ → Option ℕ
  | [],pool => some (pool.headD 0)
  | f::up,pool => if f.width<cap then none else newRoot cap up pool.tail

section Steps
variable {cap : ℕ} {f : Frame K ℕ} {up : List (Frame K ℕ)} {l r : ℕ} {k : K} {pool : List ℕ}

lemma climb_of_lt (hf : f.width<cap) : climb cap (f::up) l k r pool = [f.fillTwo l k r] := if_pos hf

lemma climb_of_ge (hf : ¬f.width<cap) : climb cap (f::up) l k r pool =
    (f.fillTwo l k r).lower (f.fillTwo_pos l r k)::
    (f.fillTwo l k r).upper (f.fillTwo_pos l r k) (pool.headD 0)::
    climb cap up f.id ((f.fillTwo l k r).middle (f.fillTwo_pos l r k)) (pool.headD 0) pool.tail :=
  if_neg hf

lemma newRoot_of_lt (hf : f.width<cap) : newRoot cap (f::up) pool = none := if_pos hf

lemma newRoot_of_ge (hf : ¬f.width<cap) : newRoot cap (f::up) pool = newRoot cap up pool.tail := if_neg hf

end Steps

variable (cap : ℕ)

lemma insertUp_root {H : ℕ} (l r : Tree K V H) (k : K) (pool : List ℕ) :
    (root : Ctx K V H H).insertUp cap l k r pool = ⟨H+1,.node ⟨pool.headD 0,[k],[l,r],rfl⟩⟩ := rfl

lemma insertUp_of_lt {h H : ℕ} (f : Frame K (Tree K V h)) (up : Ctx K V (h+1) H) (l r : Tree K V h)
    (k : K) (pool : List ℕ) (hf : f.width<cap) :
    (step f up).insertUp cap l k r pool = ⟨H,up.plug (.node (f.fillTwo l k r))⟩ := if_pos hf

lemma insertUp_of_ge {h H : ℕ} (f : Frame K (Tree K V h)) (up : Ctx K V (h+1) H) (l r : Tree K V h)
    (k : K) (pool : List ℕ) (hf : ¬f.width<cap) :
    (step f up).insertUp cap l k r pool =
      up.insertUp cap (.node ((f.fillTwo l k r).lower (f.fillTwo_pos l r k)))
        ((f.fillTwo l k r).middle (f.fillTwo_pos l r k))
        (.node ((f.fillTwo l k r).upper (f.fillTwo_pos l r k) (pool.headD 0))) pool.tail := if_neg hf

theorem items_insertUp {h H : ℕ} (c : Ctx K V h H) (l r : Tree K V h) (k : K) (pool : List ℕ) :
    items _ (c.insertUp cap l k r pool).2 = c.itemsL++items h l++.sep k::items h r++c.itemsR := by
  induction c generalizing k pool with
  | root => simp [insertUp,itemsL,itemsR,weave,weaveR]
  | @step h H f up ih =>
    have hw : items (h+1) (.node (f.fillTwo l k r)) = weaveL f.keysL (f.kidsL.map (items h))++
        items h l++.sep k::items h r++weaveR f.keysR (f.kidsR.map (items h)) := by
      rw [items_node]
      simp only [Frame.fillTwo,List.map_append,List.map_cons]
      rw [weave_split _ _ _ _ _ (by simp [f.fitL]),weaveR]
      simp
    by_cases hf : f.width<cap
    · rw [insertUp_of_lt cap f up l r k pool hf,items_plug,hw,itemsL,itemsR]
      simp
    · rw [insertUp_of_ge cap f up l r k pool hf,ih,itemsL,itemsR]
      generalize f.fillTwo_pos l r k = hn at hw ⊢
      generalize f.fillTwo l k r = n at hw hn ⊢
      have hs := weave_join (n.lower hn).keys (n.upper hn (pool.headD 0)).keys (n.middle hn)
        ((n.lower hn).kids.map (items h)) ((n.upper hn (pool.headD 0)).kids.map (items h))
        (by rw [List.length_map,Inner.fit]) (by rw [List.length_map,Inner.fit])
      rw [← List.map_append,← Inner.kids_split,← Inner.keys_split,← items_node,hw] at hs
      simp only [items_node]
      rw [List.append_assoc up.itemsL,← hs]
      simp

theorem leaves_insertUp {h H : ℕ} (c : Ctx K V h H) (l r : Tree K V h) (k : K) (pool : List ℕ) :
    leaves _ (c.insertUp cap l k r pool).2 = c.leavesL++leaves h l++leaves h r++c.leavesR := by
  induction c generalizing k pool with
  | root => simp [insertUp,leavesL,leavesR]
  | @step h H f up ih =>
    have hw : leaves (h+1) (.node (f.fillTwo l k r)) = f.kidsL.flatMap (leaves h)++leaves h l++
        leaves h r++f.kidsR.flatMap (leaves h) := by
      simp [Frame.fillTwo]
    by_cases hf : f.width<cap
    · rw [insertUp_of_lt cap f up l r k pool hf,leaves_plug,hw,leavesL,leavesR]
      simp
    · rw [insertUp_of_ge cap f up l r k pool hf,ih,leavesL,leavesR]
      generalize f.fillTwo_pos l r k = hn at hw ⊢
      generalize f.fillTwo l k r = n at hw hn ⊢
      rw [leaves_node,n.kids_split hn (pool.headD 0),List.flatMap_append] at hw
      simp only [leaves_node]
      rw [List.append_assoc up.leavesL,hw]
      simp

/-- Up to order, the inner nodes afterwards: those written on the way up, those of the two
trees put in, and the old nodes off the written part of the path. -/
theorem mem_inners_insertUp {h H : ℕ} (c : Ctx K V h H) (l r : Tree K V h) (k : K) (pool : List ℕ)
    (n : Inner K ℕ) (hn : n∈BPlus.inners _ (c.insertUp cap l k r pool).2) :
    n∈climb cap c.path (rootId h l) k (rootId h r) pool ∨ n∈BPlus.inners h l ∨
      n∈BPlus.inners h r ∨ n∈c.inners (rootId h l) := by
  induction c generalizing k pool with
  | root =>
    rw [insertUp_root] at hn
    rcases List.mem_cons.mp hn with rfl | hn
    · left
      simp [climb,path,Inner.map]
    · simp only [Tree.toInner_node,List.flatMap_cons,List.flatMap_nil,List.append_nil,
        List.mem_append] at hn
      tauto
  | @step h H f up ih =>
    have hkids (m : Inner K ℕ) (hm : m∈(f.fillTwo l k r).kids.flatMap (BPlus.inners h)) :
        m∈BPlus.inners h l ∨ m∈BPlus.inners h r ∨ m∈(step f up).inners (rootId h l) := by
      simp only [Frame.fillTwo,List.flatMap_append,List.flatMap_cons,List.mem_append] at hm
      simp only [inners,List.mem_cons,List.mem_append]
      tauto
    have hup (m : Inner K ℕ) (hm : m∈up.inners f.id) : m∈(step f up).inners (rootId h l) := by
      simp only [inners,List.mem_cons,List.mem_append]
      tauto
    by_cases hf : f.width<cap
    · rw [insertUp_of_lt cap f up l r k pool hf] at hn
      rw [path,climb_of_lt (f := f.map (rootId h)) hf]
      rcases List.mem_append.mp ((inners_plug up _).mem_iff.mp hn) with hn | hn
      · exact .inr (.inr (.inr (hup n hn)))
      · rcases List.mem_cons.mp hn with rfl | hn
        · left
          simp
        · exact .inr (hkids n hn)
    · rw [insertUp_of_ge cap f up l r k pool hf] at hn
      rw [path,climb_of_ge (f := f.map (rootId h)) hf]
      simp only [List.mem_cons]
      rcases ih _ _ _ _ hn with hn | hn | hn | hn
      · exact .inl (.inr (.inr hn))
      · rcases List.mem_cons.mp hn with rfl | hn
        · exact .inl (.inl (by simp))
        · refine .inr (hkids n ?_)
          rw [Inner.kids_split _ (f.fillTwo_pos l r k) (pool.headD 0),List.flatMap_append]
          exact List.mem_append_left _ hn
      · rcases List.mem_cons.mp hn with rfl | hn
        · exact .inl (.inr (.inl (by simp)))
        · refine .inr (hkids n ?_)
          rw [Inner.kids_split _ (f.fillTwo_pos l r k) (pool.headD 0),List.flatMap_append]
          exact List.mem_append_right _ hn
      · exact .inr (.inr (.inr (hup n hn)))

lemma inners_subset_insertUp {h H : ℕ} (c : Ctx K V h H) (l r : Tree K V h) (k : K)
    (pool : List ℕ) (n : Inner K ℕ) (hn : n∈BPlus.inners h l ∨ n∈BPlus.inners h r) :
    n∈BPlus.inners _ (c.insertUp cap l k r pool).2 := by
  induction c generalizing k pool with
  | root =>
    rw [insertUp_root,inners_node]
    simp only [List.flatMap_cons,List.flatMap_nil,List.append_nil,List.mem_cons,List.mem_append]
    exact .inr hn
  | @step h H f up ih =>
    have hk : n∈(f.fillTwo l k r).kids.flatMap (BPlus.inners h) := by
      simp only [Frame.fillTwo,List.flatMap_append,List.flatMap_cons,List.mem_append]
      tauto
    by_cases hf : f.width<cap
    · rw [insertUp_of_lt cap f up l r k pool hf,(inners_plug up _).mem_iff,inners_node]
      exact List.mem_append_right _ (List.mem_cons_of_mem _ hk)
    · rw [insertUp_of_ge cap f up l r k pool hf]
      apply ih
      rw [Inner.kids_split _ (f.fillTwo_pos l r k) (pool.headD 0),List.flatMap_append,
        List.mem_append] at hk
      exact hk.imp (List.mem_cons_of_mem _) (List.mem_cons_of_mem _)

theorem climb_subset_insertUp {h H : ℕ} (c : Ctx K V h H) (l r : Tree K V h) (k : K)
    (pool : List ℕ) (n : Inner K ℕ)
    (hn : n∈climb cap c.path (rootId h l) k (rootId h r) pool) :
    n∈BPlus.inners _ (c.insertUp cap l k r pool).2 := by
  induction c generalizing k pool with
  | root =>
    rw [insertUp_root,inners_node]
    refine List.mem_cons.mpr (.inl ?_)
    simpa [climb,path,Inner.map] using hn
  | @step h H f up ih =>
    by_cases hf : f.width<cap
    · rw [path,climb_of_lt (f := f.map (rootId h)) hf,List.mem_singleton] at hn
      rw [insertUp_of_lt cap f up l r k pool hf,(inners_plug up _).mem_iff,inners_node]
      exact List.mem_append_right _ (by simp [hn])
    · rw [path,climb_of_ge (f := f.map (rootId h)) hf] at hn
      rw [insertUp_of_ge cap f up l r k pool hf]
      simp only [List.mem_cons] at hn
      rcases hn with rfl | rfl | hn
      · exact inners_subset_insertUp cap up _ _ _ _ _ (.inl (by simp))
      · exact inners_subset_insertUp cap up _ _ _ _ _ (.inr (by simp))
      · exact ih _ _ _ _ hn

/-- The addresses of the inner nodes afterwards: those before, and new ones from the pool. The
whole pool is used up when every node on the path is full. -/
theorem inner_ids_insertUp {h H : ℕ} (c : Ctx K V h H) (l r : Tree K V h) (k : K) (pool : List ℕ)
    (hp : c.depth<pool.length) :
    ∃ m, ((BPlus.inners _ (c.insertUp cap l k r pool).2).map Inner.id).Perm
      ((c.inners (rootId h l)).map Inner.id++(BPlus.inners h l).map Inner.id++
        (BPlus.inners h r).map Inner.id++pool.take m) ∧ ((∀ f∈c.path, cap≤f.width) → c.depth < m) := by
  induction c generalizing k pool with
  | root =>
    cases pool with
    | nil => simp at hp
    | cons a pool =>
      refine ⟨1,List.perm_iff_count.mpr fun x => ?_,fun _ => Nat.one_pos⟩
      rw [insertUp_root,inners_node]
      simp only [inners,Inner.map,List.headD_cons,List.flatMap_cons,List.flatMap_nil,List.map_cons,
        List.map_append,List.map_nil,List.count_append,List.count_cons,List.count_nil,
        List.take_succ_cons,List.take_zero]
      omega
  | @step h H f up ih =>
    by_cases hf : f.width<cap
    · refine ⟨0,?_,fun hfull => absurd (hfull (f.map (rootId h)) (List.mem_cons_self ..)) (not_le.mpr hf)⟩
      rw [insertUp_of_lt cap f up l r k pool hf]
      refine ((inners_plug up _).map _).trans (List.perm_iff_count.mpr fun x => ?_)
      simp only [inners_node,inners,rootId_node,Frame.fillTwo,Frame.fill,Frame.map,Inner.map,
        List.flatMap_append,List.flatMap_cons,List.map_cons,List.map_append,List.count_append,
        List.count_cons,List.take_zero,List.count_nil]
      omega
    · cases pool with
      | nil => simp at hp
      | cons a pool =>
        rw [insertUp_of_ge cap f up l r k _ hf]
        obtain ⟨m,hm,hfull⟩ := ih (.node ((f.fillTwo l k r).lower (f.fillTwo_pos l r k)))
          (.node ((f.fillTwo l k r).upper (f.fillTwo_pos l r k) a))
          ((f.fillTwo l k r).middle (f.fillTwo_pos l r k)) pool (by simpa [depth] using hp)
        refine ⟨m+1,hm.trans (List.perm_iff_count.mpr fun x => ?_),fun hall =>
          Nat.succ_lt_succ (hfull fun g hg => hall g (List.mem_cons_of_mem _ hg))⟩
        have hk : (f.fillTwo l k r).kids.flatMap (BPlus.inners h) =
            ((f.fillTwo l k r).lower (f.fillTwo_pos l r k)).kids.flatMap (BPlus.inners h)++
            ((f.fillTwo l k r).upper (f.fillTwo_pos l r k) a).kids.flatMap (BPlus.inners h) := by
          rw [← List.flatMap_append,← Inner.kids_split]
        have hx := congrArg (fun z => List.count x (z.map Inner.id)) hk
        simp only [Frame.fillTwo,List.flatMap_append,List.flatMap_cons,List.map_append,
          List.count_append] at hx
        simp only [inners_node,inners,rootId_node,Frame.fill,Frame.map,Inner.map,
          List.map_cons,List.map_append,List.count_append,List.count_cons,List.take_succ_cons]
        simp only [Inner.lower,Inner.upper,Frame.fillTwo,beq_iff_eq] at hx ⊢
        omega

lemma rootId_plug {h H : ℕ} (c : Ctx K V h H) (s t : Tree K V h) (he : rootId h s = rootId h t) :
    rootId H (c.plug s) = rootId H (c.plug t) := by
  induction c with
  | root => exact he
  | step f up ih => exact ih _ _ rfl

theorem rootId_insertUp {h H : ℕ} (c : Ctx K V h H) (l r : Tree K V h) (k : K) (pool : List ℕ) :
    rootId _ (c.insertUp cap l k r pool).2 =
      (newRoot cap c.path pool).getD (rootId H (c.plug l)) := by
  induction c generalizing k pool with
  | root => rfl
  | @step h H f up ih =>
    by_cases hf : f.width<cap
    · rw [insertUp_of_lt cap f up l r k pool hf,path,newRoot_of_lt (f := f.map (rootId h)) hf]
      exact rootId_plug up _ _ rfl
    · rw [insertUp_of_ge cap f up l r k pool hf,path,newRoot_of_ge (f := f.map (rootId h)) hf,ih]
      exact congrArg _ (rootId_plug up _ _ rfl)

variable {cap}

lemma climb_keys_le (hc : 2≤cap) (p : List (Frame K ℕ)) (hp : ∀ f∈p, f.width≤cap) (l r : ℕ) (k : K)
    (pool : List ℕ) : ∀ n∈climb cap p l k r pool, n.keys.length≤cap := by
  induction p generalizing l k r pool with
  | nil => simp [climb]; omega
  | cons f up ih =>
    have hw := f.fillTwo_length l r k
    have hf := hp f (by simp)
    rw [climb]
    split
    · intro n hn
      rw [List.mem_singleton.mp hn,hw]
      omega
    · intro n hn
      simp only [List.mem_cons] at hn
      rcases hn with rfl | rfl | hn
      · simp only [Inner.lower,List.length_take,hw]
        omega
      · simp only [Inner.upper,List.length_drop,hw]
        omega
      · exact ih (fun g hg => hp g (by simp [hg])) _ _ _ _ n hn

lemma climb_ids (p : List (Frame K ℕ)) (l r : ℕ) (k : K) (pool : List ℕ) (hp : p.length<pool.length) :
    ∀ n∈climb cap p l k r pool, n.id∈p.map Frame.id ∨ n.id∈pool := by
  induction p generalizing l k r pool with
  | nil =>
    cases pool with
    | nil => simp at hp
    | cons a pool => simp [climb]
  | cons f up ih =>
    cases pool with
    | nil => simp at hp
    | cons a pool =>
      rw [climb]
      split
      · intro n hn
        rw [List.mem_singleton.mp hn]
        simp [Frame.fillTwo]
      · intro n hn
        simp only [List.mem_cons] at hn
        rcases hn with rfl | rfl | hn
        · simp [Inner.lower,Frame.fillTwo]
        · simp [Inner.upper]
        · have := ih f.id a _ pool (by simpa using hp) n hn
          simp only [List.map_cons,List.mem_cons]
          tauto

lemma newRoot_mem (p : List (Frame K ℕ)) (pool : List ℕ) (hp : p.length<pool.length) {a : ℕ}
    (h : newRoot cap p pool = some a) : a∈pool := by
  induction p generalizing pool with
  | nil =>
    obtain ⟨x,pool,rfl⟩ := List.exists_cons_of_length_pos (Nat.zero_lt_of_lt hp)
    cases h
    exact List.mem_cons_self ..
  | cons f p ih =>
    obtain ⟨x,pool,rfl⟩ := List.exists_cons_of_length_pos (Nat.zero_lt_of_lt hp)
    rw [newRoot] at h
    split at h
    · cases h
    · exact List.mem_cons_of_mem _ (ih pool (by simpa using hp) h)

lemma climb_nodup (p : List (Frame K ℕ)) (l r : ℕ) (k : K) (pool : List ℕ) (hp : p.length<pool.length)
    (hd : (p.map Frame.id++pool).Nodup) : ((climb cap p l k r pool).map Inner.id).Nodup := by
  induction p generalizing l k r pool with
  | nil => simp [climb]
  | cons f up ih =>
    cases pool with
    | nil => simp at hp
    | cons a pool =>
      rw [climb]
      split
      · simp
      · have hl : up.length<pool.length := by simpa using hp
        simp only [List.map_cons,List.cons_append,List.nodup_cons,List.mem_append,List.mem_cons,
          not_or,List.nodup_append] at hd
        obtain ⟨⟨hfu,hfa,hfp⟩,hu,⟨hap,hpp⟩,hx⟩ := hd
        have hi : ∀ x∈(climb cap up f.id ((f.fillTwo l k r).middle (f.fillTwo_pos l r k)) a pool).map
            Inner.id, x∈up.map Frame.id ∨ x∈pool := by
          intro x hxm
          obtain ⟨n,hn,rfl⟩ := List.mem_map.mp hxm
          exact climb_ids up _ _ _ _ hl n hn
        simp only [List.headD_cons,List.tail_cons,List.map_cons,List.nodup_cons,List.mem_cons,not_or]
        refine ⟨⟨hfa,fun hm => ?_⟩,fun hm => ?_,ih _ _ _ _ hl ?_⟩
        · rcases hi _ hm with h | h
          · exact hfu h
          · exact hfp h
        · rcases hi _ hm with h | h
          · exact hx _ h a (.inl rfl) rfl
          · exact hap h
        · exact List.nodup_append.mpr ⟨hu,hpp,fun y hy z hz => hx y hy z (.inr hz)⟩

end Ctx
end Plomvix.Lib.BPlus
