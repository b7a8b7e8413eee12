import Plomvix.KV.Pages

/-! Pager calls under a fault pattern, and the descent of a stored tree: a walk makes one
read per level, and the first read that fails ends it with nothing changed. -/
namespace Plomvix.KV
open Lib Pager BPlus

namespace Store
variable (s : Store) (c d : PagerCall) (m n : ℕ)

/-- The next `n` calls of kind `c` are not made to fail. -/
def Clear : Prop := ∀ i < n, s.faults c (s.seen c+i) = false

instance : Decidable (s.Clear c n) := by unfold Clear; infer_instance

@[simp] lemma tick_pages : (s.tick c n).pages = s.pages := rfl
@[simp] lemma tick_faults : (s.tick c n).faults = s.faults := rfl
@[simp] lemma tick_rootPageID : (s.tick c n).rootPageID = s.rootPageID := rfl
@[simp] lemma tick_isOpen : (s.tick c n).isOpen = s.isOpen := rfl
@[simp] lemma tick_closed : (s.tick c n).closed = s.closed := rfl
@[simp] lemma tick_seen : (s.tick c n).seen c = s.seen c+n := Function.update_self ..

lemma tick_seen_ne {c d : PagerCall} (h : d≠c) : (s.tick c n).seen d = s.seen d :=
  Function.update_of_ne h ..

@[simp] lemma tick_zero : s.tick c 0 = s := by
  unfold tick
  rw [Nat.add_zero,Function.update_eq_self]

@[simp] lemma tick_tick : (s.tick c m).tick c n = s.tick c (m+n) := by
  unfold tick
  simp only [Function.update_self,Function.update_idem,Nat.add_assoc]

variable {s c d m n}

lemma Clear.head (h : s.Clear c (n+1)) : s.faults c (s.seen c) = false := h 0 (Nat.succ_pos n)

lemma Clear.mono (h : s.Clear c n) (hm : m ≤ n) : s.Clear c m := fun i hi => h i (hi.trans_le hm)

lemma clear_add : s.Clear c (m+n) ↔ s.Clear c m ∧ (s.tick c m).Clear c n := by
  refine ⟨fun h => ⟨h.mono (Nat.le_add_right m n),fun i hi => ?_⟩,fun h i hi => ?_⟩
  · rw [tick_faults,tick_seen,Nat.add_assoc]
    exact h (m+i) (by omega)
  · by_cases him : i < m
    · exact h.1 i him
    · have hx := h.2 (i-m) (by omega)
      rw [tick_faults,tick_seen,Nat.add_assoc,Nat.add_sub_cancel' (not_lt.mp him)] at hx
      exact hx

lemma clear_succ : s.Clear c (n+1) ↔ s.faults c (s.seen c) = false ∧ (s.tick c 1).Clear c n := by
  rw [Nat.add_comm,clear_add]
  simp [Clear]

lemma clear_zero : s.Clear c 0 := fun i hi => absurd hi (Nat.not_lt_zero i)

lemma clear_one : s.Clear c 1 ↔ s.faults c (s.seen c) = false := by
  rw [clear_succ]
  exact and_iff_left clear_zero

lemma clear_tick_ne (h : d≠c) : (s.tick c n).Clear d m ↔ s.Clear d m := by
  simp only [Clear,tick_faults,tick_seen_ne s n h]

end Store

section Run
variable {α β : Type} {s s' : Store} {op : PageStore → Except Pager.Err α × PageStore} {x : Cmd α}

lemma call_fault {c : PagerCall}
    (h : s.faults c (s.seen c) = true) : call c op s = (.error (.err (.pager .io)),s.tick c 1) :=
  if_pos h

lemma call_ok {c : PagerCall} {a : α}
    {p : PageStore} (h : s.faults c (s.seen c) = false) (ho : op s.pages = (.ok a,p)) :
    call c op s = (.ok a,{ s.tick c 1 with pages := p }) := by
  unfold call
  rw [if_neg (by simp [h]),ho]
  rfl

lemma call_err {c : PagerCall} {e : Pager.Err}
    {p : PageStore} (h : s.faults c (s.seen c) = false) (ho : op s.pages = (.error e,p)) :
    call c op s = (.error (.err (.pager e)),{ s.tick c 1 with pages := p }) := by
  unfold call
  rw [if_neg (by simp [h]),ho]
  rfl

lemma wrap_ok {text : String} {a : α} (h : x s = (.ok a,s')) :
    wrap text x s = (.ok a,s') := Prog.handle_ok h

lemma wrap_err {text : String} {e : Err} (h : x s = (.error (.err e),s')) :
    wrap text x s = (.error (.err (.wrap text e)),s') := Prog.handle_error h

lemma codec_ok {x : Except Err α} {a : α} (h : x = .ok a) (s : Store) : codec x s = (.ok a,s) := by
  rw [h]
  rfl

lemma codec_err {x : Except Err α} {e : Err} (h : x = .error e) (s : Store) :
    codec x s = (.error (.err e),s) := by
  rw [h]
  rfl

lemma attempt_ok {a : α} (h : x s = (.ok a,s')) : attempt x s = (.ok (some a),s') := by
  have hm : (some <$> x) s = (.ok (some a),s') := by
    change (x >>= fun a => pure (some a)) s = _
    rw [Prog.bind_ok h]
    rfl
  exact Prog.handle_ok hm

lemma attempt_err {e : Err} (h : x s = (.error (.err e),s')) :
    attempt x s = (.ok none,s') := by
  have hm : (some <$> x) s = (.error (.err e),s') := by
    change (x >>= fun a => pure (some a)) s = _
    rw [Prog.bind_error h]
  exact Prog.handle_error hm

lemma readPage_ok {id : ℕ} (hl : s.pages.Live id) (h : s.faults .read (s.seen .read) = false) :
    readPage id s = (.ok (s.pages.view id),s.tick .read 1) := call_ok h (if_pos hl)

end Run

def entryOf (f : Frame Key ℕ) (child : ℕ) : PathEntry :=
  ⟨f.id,f.keysL.length,f.keysL++f.keysR,f.kidsL++child::f.kidsR⟩

lemma entryOf_width (f : Frame Key ℕ) (child : ℕ) : (entryOf f child).keys.length = f.width := by
  simp [entryOf,Frame.width]

lemma entryOf_keys (f : Frame Key ℕ) (child l r : ℕ) (k : Key) :
    (entryOf f child).keys.take f.keysL.length++k::(entryOf f child).keys.drop f.keysL.length =
      (f.fillTwo l k r).keys := by
  simp [entryOf,Frame.fillTwo]

lemma entryOf_kids (f : Frame Key ℕ) (child l r : ℕ) (k : Key) :
    (entryOf f child).childPtrs.take f.keysL.length++l::r::
      (entryOf f child).childPtrs.drop (f.keysL.length+1) = (f.fillTwo l k r).kids := by
  simp only [entryOf,Frame.fillTwo]
  rw [List.take_left' f.fitL,← List.drop_drop,List.drop_left' f.fitL]
  rfl

/-- The path entries of a context whose gap is filled by the node at address `child`. -/
def pathEntries : {h H : ℕ} → Ctx Key Slot h H → ℕ → List PathEntry
  | _,_,.root,_ => []
  | h,_,.step f up,child => entryOf (f.map (rootId h)) child::pathEntries up f.id

@[simp] lemma pathEntries_length {h H : ℕ} (c : Ctx Key Slot h H) (a : ℕ) :
    (pathEntries c a).length = c.depth := by
  induction c generalizing a with
  | root => rfl
  | step f up ih => simp [pathEntries,Ctx.depth,ih]

/-- The nodes of a tree can be read and recognised. -/
structure Readable (p : PageStore) {h : ℕ} (t : Tree Key Slot h) : Prop where
  inner : ∀ n ∈ inners h t, p.Live n.id ∧ decodeInternalNode (p.view n.id) = .ok (n.kids,n.keys)
  leaf : ∀ l ∈ leaves h t, p.Live l.id ∧ (p.view l.id).headD 0 = nodeTypeLeaf

lemma Readable.kid {p : PageStore} {h : ℕ} {t : Tree Key Slot (h+1)} (hr : Readable p t)
    {u : Tree Key Slot h} (hu : u ∈ t.toInner.kids) : Readable p u where
  inner n hn := hr.inner n (List.mem_cons_of_mem _ (List.mem_flatMap.mpr ⟨u,hu,hn⟩))
  leaf l hl := hr.leaf l (List.mem_flatMap.mpr ⟨u,hu,hl⟩)

lemma upperBoundIdx_eq {childPtrs : List ℕ} {ikeys : List Key}
    (h : childPtrs.length = ikeys.length+1) (k : Key) :
    upperBoundIdx childPtrs ikeys k = upperIdx k ikeys := by
  rw [upperBoundIdx,h,Nat.add_sub_cancel]
  clear h
  induction ikeys with
  | nil => rfl
  | cons x xs ih =>
    rw [upperIdx,List.findIdx?_cons]
    by_cases hx : k < x
    · simp [hx]
    · rw [if_neg hx,← ih]
      simp only [hx,decide_false,Bool.false_eq_true,if_false]
      cases xs.findIdx? (fun ik => decide (k < ik)) <;> simp

section Walk
variable {α : Type} {text : ℕ → String} {unknown : UInt8 → String}
  {pick : List ℕ → List Key → ℕ} {atLeaf : List PathEntry → ℕ → Bytes → Cmd α} (r : Route Key)
variable {s : Store}

lemma walk_inner {h H : ℕ} (hp : ∀ ptrs ks, ptrs.length = ks.length+1 → pick ptrs ks = r.pick ks)
    {t : Tree Key Slot (h+1)} (ht : Readable s.pages t) (c : Ctx Key Slot (h+1) H) (n : ℕ)
    (hf : s.faults .read (s.seen .read) = false) :
    let p := t.toInner.focus (r.pick t.toInner.keys) (r.le _)
    walk text unknown pick atLeaf (n+1) (rootId (h+1) t) (pathEntries c (rootId (h+1) t)) s =
      walk text unknown pick atLeaf n (rootId h p.2)
        (pathEntries (.step p.1 c) (rootId h p.2)) (s.tick .read 1) := by
  intro p
  obtain ⟨hl,hd⟩ := ht.inner (t.toInner.map (rootId h)) (List.mem_cons_self ..)
  have hid : (t.toInner.map (rootId h)).id = rootId (h+1) t := rfl
  rw [hid] at hl hd
  have hty := (decodeInternalNode_type hd).2
  have hne : nodeTypeInternal≠nodeTypeLeaf := by decide
  rw [walk,Prog.bind_ok (wrap_ok (readPage_ok hl hf))]
  rw [if_neg (by rw [hty]; exact hne),if_pos hty,Prog.bind_ok (codec_ok hd _)]
  have hk : pick (t.toInner.map (rootId h)).kids (t.toInner.map (rootId h)).keys =
      r.pick t.toInner.keys := hp _ _ (t.toInner.map (rootId h)).fit
  have hle := r.le t.toInner.keys
  have hlt : r.pick t.toInner.keys < t.toInner.kids.length := by
    rw [t.toInner.fit]
    omega
  simp only [hk]
  have hchild : (t.toInner.map (rootId h)).kids.getD (r.pick t.toInner.keys) 0 = rootId h p.2 := by
    simp [Inner.map,p,Inner.focus,hlt]
  have hentry : (⟨rootId (h+1) t,r.pick t.toInner.keys,(t.toInner.map (rootId h)).keys,
      (t.toInner.map (rootId h)).kids⟩ : PathEntry) = entryOf (p.1.map (rootId h)) (rootId h p.2) := by
    have hks : (t.toInner.kids.take (r.pick t.toInner.keys)).map (rootId h)++rootId h p.2::
        (t.toInner.kids.drop (r.pick t.toInner.keys+1)).map (rootId h) =
        t.toInner.kids.map (rootId h) := by
      rw [← List.map_cons,← List.map_append]
      simp only [p,Inner.focus,List.get_eq_getElem,List.getElem_cons_drop hlt,List.take_append_drop]
    simp only [entryOf,Frame.map,p,Inner.focus,Inner.map,List.length_take,min_eq_left hle,
      List.take_append_drop]
    simp only [p,Inner.focus] at hks
    rw [hks]
    rfl
  rw [hchild,hentry]
  rfl

theorem walk_ok {h H : ℕ} (hp : ∀ ptrs ks, ptrs.length = ks.length+1 → pick ptrs ks = r.pick ks)
    {t : Tree Key Slot h} (ht : Readable s.pages t) (c : Ctx Key Slot h H) {n : ℕ}
    (hn : h < n) (hc : s.Clear .read (h+1)) {c' : Ctx Key Slot 0 H} {l : Leaf Key Slot}
    (hd : descend r h t c = (c',l)) :
    walk text unknown pick atLeaf n (rootId h t) (pathEntries c (rootId h t)) s =
      atLeaf (pathEntries c' l.id) l.id (s.pages.view l.id) (s.tick .read (h+1)) := by
  induction h generalizing s n with
  | zero =>
    obtain ⟨n,rfl⟩ : ∃ m, n = m+1 := ⟨n-1,by omega⟩
    obtain ⟨hl,hty⟩ := ht.leaf t.toLeaf (List.mem_cons_self ..)
    obtain rfl : c = c' := congrArg Prod.fst hd
    obtain rfl : t.toLeaf = l := congrArg Prod.snd hd
    change walk text unknown pick atLeaf (n+1) t.toLeaf.id (pathEntries c t.toLeaf.id) s = _
    rw [walk,Prog.bind_ok (wrap_ok (readPage_ok hl hc.head)),if_pos hty]
  | succ h ih =>
    obtain ⟨n,rfl⟩ : ∃ m, n = m+1 := ⟨n-1,by omega⟩
    have hk : (t.toInner.focus (r.pick t.toInner.keys) (r.le _)).2 ∈ t.toInner.kids :=
      List.getElem_mem ..
    obtain ⟨hc0,hc1⟩ := Store.clear_succ.mp hc
    rw [walk_inner r hp ht c n hc0,ih (s := s.tick .read 1) (ht.kid hk) _ (by omega) hc1 hd,
      Store.tick_tick,Nat.add_comm 1]
    rfl

lemma walk_stop {n id : ℕ} {path : List PathEntry} (hf : s.faults .read (s.seen .read) = true) :
    ∃ e m, walk text unknown pick atLeaf (n+1) id path s = (.error (.err e),s.tick .read m) := by
  refine ⟨.wrap (text id) (.pager .io),1,?_⟩
  rw [walk]
  exact Prog.bind_error (wrap_err (call_fault hf))

/-- A walk in which a read fails returns an error and has changed nothing. -/
theorem walk_fault {h H : ℕ} (hp : ∀ ptrs ks, ptrs.length = ks.length+1 → pick ptrs ks = r.pick ks)
    {t : Tree Key Slot h} (ht : Readable s.pages t) (c : Ctx Key Slot h H) {n : ℕ}
    (hn : h < n) (hc : ¬s.Clear .read (h+1)) :
    ∃ e m, walk text unknown pick atLeaf n (rootId h t) (pathEntries c (rootId h t)) s =
      (.error (.err e),s.tick .read m) := by
  induction h generalizing s n with
  | zero =>
    obtain ⟨n,rfl⟩ : ∃ m, n = m+1 := ⟨n-1,by omega⟩
    cases hf : s.faults .read (s.seen .read) with
    | true => exact walk_stop hf
    | false => exact absurd (Store.clear_succ.mpr ⟨hf,fun i hi => absurd hi (by omega)⟩) hc
  | succ h ih =>
    obtain ⟨n,rfl⟩ : ∃ m, n = m+1 := ⟨n-1,by omega⟩
    cases hf : s.faults .read (s.seen .read) with
    | true => exact walk_stop hf
    | false =>
      have hk : (t.toInner.focus (r.pick t.toInner.keys) (r.le _)).2 ∈ t.toInner.kids :=
        List.getElem_mem ..
      obtain ⟨e,m,hw⟩ := ih (s := s.tick .read 1) (ht.kid hk) (.step _ c) (n := n) (by omega)
        fun hx => hc (Store.clear_succ.mpr ⟨hf,hx⟩)
      refine ⟨e,1+m,?_⟩
      rw [walk_inner r hp ht c n hf,hw,Store.tick_tick]

end Walk
end Plomvix.KV
