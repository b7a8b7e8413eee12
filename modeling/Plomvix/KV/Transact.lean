import Plomvix.KV.Read

/-! Allocation and write transactions under a fault pattern. A transaction's writes are
buffered; a commit puts them in place together, a rollback drops them, and a failed commit
or rollback leaves the transaction open. -/
namespace Plomvix.KV
open Lib Pager BPlus
variable {p q : PageStore}

def patch (f : ℕ → Bytes) (ws : List (ℕ × Bytes)) : ℕ → Bytes :=
  ws.foldl (fun g w => Function.update g w.1 w.2) f

lemma patch_not_mem {f : ℕ → Bytes} {ws : List (ℕ × Bytes)} {id : ℕ} (h : id ∉ ws.map Prod.fst) :
    patch f ws id = f id := by
  induction ws generalizing f with
  | nil => rfl
  | cons w ws ih =>
    simp only [List.map_cons,List.mem_cons,not_or] at h
    have hx := ih (f := Function.update f w.1 w.2) h.2
    rw [Function.update_of_ne h.1] at hx
    exact hx

lemma patch_mem {f : ℕ → Bytes} {ws : List (ℕ × Bytes)} (hd : (ws.map Prod.fst).Nodup) {id : ℕ}
    {b : Bytes} (h : (id,b) ∈ ws) : patch f ws id = b := by
  induction ws generalizing f with
  | nil => simp at h
  | cons w ws ih =>
    obtain ⟨hw,hd⟩ := List.nodup_cons.mp hd
    cases List.mem_cons.mp h with
    | inl he =>
      subst he
      have hx := patch_not_mem (f := Function.update f id b) hw
      rw [Function.update_self] at hx
      exact hx
    | inr hm => exact ih hd hm

def buffered (p : PageStore) (ws : List (ℕ × Bytes)) : PageStore :=
  { p with txn := p.txn.map (fun t => ws.foldl (fun f w => Function.update f w.1 (some w.2)) t) }

/-- The page store with the writes in place and no transaction. -/
def written (p : PageStore) (ws : List (ℕ × Bytes)) : PageStore :=
  { p with body := patch p.body ws, txn := none }

@[simp] lemma buffered_nil (p : PageStore) : buffered p [] = p := by
  simp [buffered]

@[simp] lemma buffered_buffered (p : PageStore) (as bs : List (ℕ × Bytes)) :
    buffered (buffered p as) bs = buffered p (as++bs) := by
  simp only [buffered,Option.map_map,Function.comp_def,List.foldl_append]

lemma view_buffered {p : PageStore} (h : p.txn.isSome) (ws : List (ℕ × Bytes)) :
    (buffered p ws).view = patch p.view ws := by
  obtain ⟨t,ht⟩ := Option.isSome_iff_exists.mp h
  induction ws generalizing p t with
  | nil => simp [patch]
  | cons w ws ih =>
    have hb : (buffered p [w]).txn = some (Function.update t w.1 (some w.2)) := by
      simp [buffered,ht]
    have hv : (buffered p [w]).view = Function.update p.view w.1 w.2 := by
      funext id
      by_cases hid : id = w.1
      · subst hid
        simp [PageStore.view,hb]
      · simp [PageStore.view,ht,Function.update_of_ne hid,buffered]
    have hx := ih (p := buffered p [w]) (by simp [hb]) _ hb
    rw [buffered_buffered,hv] at hx
    exact hx

/-- How a call ends, when it neither panics nor hangs: with a result, or with some error. -/
def Ends {α : Type} (x : Cmd α) (s : Store) (r : Option α) (s' : Store) : Prop :=
  match r with
  | some a => x s = (.ok a,s')
  | none => ∃ e, x s = (.error (.err e),s')

section Ends
variable {α β : Type} {s s' s'' : Store}

lemma Ends.bind {x : Cmd α} {f : α → Cmd β} {a : α} {r : Option β} (hx : Ends x s (some a) s')
    (hf : Ends (f a) s' r s'') : Ends (x >>= f) s r s'' := by
  have hx' : x s = (.ok a,s') := hx
  cases r with
  | some b => exact (Prog.bind_ok hx').trans hf
  | none =>
    obtain ⟨e,he⟩ := hf
    exact ⟨e,(Prog.bind_ok hx').trans he⟩

lemma Ends.bind_none {x : Cmd α} {f : α → Cmd β} (hx : Ends x s none s') :
    Ends (x >>= f) s none s' := by
  obtain ⟨e,he⟩ := hx
  exact ⟨e,Prog.bind_error he⟩

lemma Ends.wrap {x : Cmd α} {r : Option α} (h : Ends x s r s') (text : String) :
    Ends (wrap text x) s r s' := by
  cases r with
  | some a => exact wrap_ok h
  | none =>
    obtain ⟨e,he⟩ := h
    exact ⟨_,wrap_err he⟩

lemma ends_pure (a : α) (s : Store) : Ends (pure a) s (some a) s := rfl

lemma ends_fault {c : PagerCall} {op : PageStore → Except Pager.Err α × PageStore}
    (h : s.faults c (s.seen c) = true) : Ends (call c op) s none (s.tick c 1) := ⟨_,call_fault h⟩

end Ends

/-- The state after `n` calls of one kind that left the pages as `p`. -/
def Store.after (s : Store) (c : PagerCall) (n : ℕ) (p : PageStore) : Store :=
  { s.tick c n with pages := p }

namespace Store
variable (s : Store) (c d : PagerCall) (m n : ℕ) (p q : PageStore)

@[simp] lemma after_pages : (s.after c n p).pages = p := rfl
@[simp] lemma after_faults : (s.after c n p).faults = s.faults := rfl
@[simp] lemma after_rootPageID : (s.after c n p).rootPageID = s.rootPageID := rfl
@[simp] lemma after_isOpen : (s.after c n p).isOpen = s.isOpen := rfl
@[simp] lemma after_closed : (s.after c n p).closed = s.closed := rfl
@[simp] lemma after_seen : (s.after c n p).seen = (s.tick c n).seen := rfl

lemma tick_eq_after : s.tick c n = s.after c n s.pages := rfl

@[simp] lemma after_after : (s.after c m p).after c n q = s.after c (m+n) q := by
  have h := tick_tick s c m n
  simp only [after,tick] at h ⊢
  injection h with _ _ hseen
  simp only [hseen]

variable {s c d m n p}

lemma clear_after : (s.after c m p).Clear c n ↔ (s.tick c m).Clear c n := Iff.rfl

lemma clear_after_ne (h : d≠c) : (s.after c n p).Clear d m ↔ s.Clear d m := clear_tick_ne h

end Store

/-- How many of `n` calls from the `i`-th on succeed before the first that fails. -/
def granted (fault : ℕ → Bool) (i : ℕ) : ℕ → ℕ
  | 0 => 0
  | n+1 => if fault i then 0 else granted fault (i+1) n+1

/-- How many calls are made when a series of `n` ends with the first failure. -/
def tried (fault : ℕ → Bool) (i : ℕ) : ℕ → ℕ
  | 0 => 0
  | n+1 => if fault i then 1 else tried fault (i+1) n+1

/-- The overflow pages that a series of `n` allocations obtains. -/
def Store.granted (s : Store) (n : ℕ) : ℕ := KV.granted (s.faults .alloc) (s.seen .alloc) n

def Store.tried (s : Store) (n : ℕ) : ℕ := KV.tried (s.faults .alloc) (s.seen .alloc) n

lemma Store.granted_eq_iff {s : Store} {n : ℕ} : s.granted n = n ↔ s.Clear .alloc n := by
  induction n generalizing s with
  | zero => simp [granted,KV.granted,Clear]
  | succ n ih =>
    have hi := ih (s := s.tick .alloc 1)
    rw [granted,tick_faults,tick_seen] at hi
    rw [granted,KV.granted,clear_succ,← hi]
    cases s.faults .alloc (s.seen .alloc) <;> simp

/-- `q` is `p` with the pages `ids` newly allocated. -/
structure Extends (p q : PageStore) (ids : List ℕ) : Prop where
  sound : Sound q
  keep : ∀ id, p.Live id → q.Live id ∧ q.body id = p.body id
  fresh : ∀ id ∈ ids, ¬p.Live id ∧ q.Live id ∧ metaPageID < id
  zero : ∀ id ∈ ids, q.body id = zeroBody
  nodup : ids.Nodup
  grow : q.pageCount ≤ p.pageCount+ids.length
  cover : ∀ id, q.Live id → p.Live id ∨ id ∈ ids

lemma Extends.refl {p : PageStore} (h : Sound p) : Extends p p [] where
  sound := h
  keep _ hl := ⟨hl,rfl⟩
  fresh := by simp
  zero := by simp
  nodup := by simp
  grow := le_refl _
  cover _ hl := .inl hl

lemma Extends.trans {p q r : PageStore} {as bs : List ℕ} (h : Extends p q as) (g : Extends q r bs) :
    Extends p r (as++bs) where
  sound := g.sound
  keep id hl := by
    obtain ⟨h1,h2⟩ := h.keep id hl
    obtain ⟨g1,g2⟩ := g.keep id h1
    exact ⟨g1,g2.trans h2⟩
  fresh id hid := by
    cases List.mem_append.mp hid with
    | inl ha =>
      obtain ⟨h1,h2,h3⟩ := h.fresh id ha
      exact ⟨h1,(g.keep id h2).1,h3⟩
    | inr hb =>
      obtain ⟨g1,g2,g3⟩ := g.fresh id hb
      exact ⟨fun hl => g1 (h.keep id hl).1,g2,g3⟩
  zero id hid := by
    cases List.mem_append.mp hid with
    | inl ha => exact (g.keep id (h.fresh id ha).2.1).2.trans (h.zero id ha)
    | inr hb => exact g.zero id hb
  nodup := by
    refine List.nodup_append.mpr ⟨h.nodup,g.nodup,fun x hx y hy he => ?_⟩
    subst he
    exact (g.fresh x hy).1 (h.fresh x hx).2.1
  grow := by
    have h1 := h.grow
    have h2 := g.grow
    rw [List.length_append]
    omega
  cover id hl := (g.cover id hl).elim
    (fun hq => (h.cover id hq).imp_right (List.mem_append_left _)) fun hb =>
      .inr (List.mem_append_right _ hb)

lemma Rooted.extend {ids : List ℕ} (hx : Extends p q ids) {H : ℕ}
    {t : Tree Key Slot H} (ht : Rooted p t) : Rooted q t where
  holds := ht.holds.frame fun id hid => (hx.keep id (ht.live id hid).1).2
  ordered := ht.ordered
  key_size := ht.key_size
  leaf_size := ht.leaf_size
  inner_size := ht.inner_size
  nodup := ht.nodup
  live id hid := ⟨(hx.keep id (ht.live id hid).1).1,(ht.live id hid).2⟩

lemma Shows.extend {ids : List ℕ} (hx : Extends p q ids) {root : ℕ} {o : Root}
    (hs : Shows p root o) : Shows q root o where
  sound := hx.sound
  meta_page := by
    rw [(hx.keep _ hs.sound.live_meta).2]
    exact hs.meta_page
  root_eq := hs.root_eq
  tree x hm := (hs.tree x hm).extend hx

lemma extends_of_allocate {id : ℕ} (hs : Sound p) (h : p.allocatePage = (.ok id,q)) :
    Extends p q [id] := by
  have hmeta : firstDataPageID ≤ metaPageID := le_refl _
  unfold PageStore.allocatePage at h
  rw [if_neg (by simp [hs.idle])] at h
  cases hf : p.freeList with
  | nil =>
    rw [hf] at h
    simp only at h
    split at h
    · rename_i hr
      obtain ⟨h1,rfl⟩ := Prod.mk.inj h
      obtain rfl := Except.ok.inj h1
      refine ⟨⟨hs.idle,?_,?_,?_,?_⟩,fun id hl => ?_,?_,by simp,by simp,by simp,fun id hl => ?_⟩
      · simpa using hr
      · simp
      · simp
      · exact hs.meta_lt.trans (Nat.lt_succ_self _)
      · obtain ⟨h1,h2,-⟩ := hl
        refine ⟨⟨h1,h2.trans (Nat.lt_succ_self _),by simp⟩,?_⟩
        exact Function.update_of_ne h2.ne ..
      · intro id hid
        obtain rfl := List.mem_singleton.mp hid
        have hm := hs.meta_lt
        exact ⟨fun hl => lt_irrefl _ hl.2.1,⟨hmeta.trans hm.le,Nat.lt_succ_self _,by simp⟩,hm⟩
      · obtain ⟨h1,h2,-⟩ := hl
        cases (Nat.lt_succ_iff.mp h2).lt_or_eq with
        | inl hlt => exact .inl ⟨h1,hlt,by simp [hf]⟩
        | inr he => exact .inr (by simp [he])
    · cases h
  | cons a rest =>
    rw [hf] at h
    obtain ⟨h1,rfl⟩ := Prod.mk.inj h
    obtain rfl := Except.ok.inj h1
    have hnd := hs.free_nodup
    have hfree := hs.free
    rw [hf] at hnd hfree
    obtain ⟨ha,hnd⟩ := List.nodup_cons.mp hnd
    obtain ⟨ha1,ha2⟩ := hfree a (by simp)
    refine ⟨⟨hs.idle,hs.bound,hnd,fun id hid => hfree id (by simp [hid]),hs.meta_lt⟩,fun id hl => ?_,?_,
      by simp,by simp,by simp,fun id hl => ?_⟩
    · obtain ⟨h1,h2,h3⟩ := hl
      rw [hf] at h3
      refine ⟨⟨h1,h2,fun hm => h3 (by simp [hm])⟩,?_⟩
      exact Function.update_of_ne (fun he => h3 (by simp [he])) ..
    · intro id hid
      obtain rfl := List.mem_singleton.mp hid
      exact ⟨fun hl => hl.2.2 (by simp [hf]),⟨hmeta.trans ha1.le,ha2,ha⟩,ha1⟩
    · obtain ⟨h1,h2,h3⟩ := hl
      by_cases he : id = a
      · exact .inr (by simp [he])
      · refine .inl ⟨h1,h2,fun hm => ?_⟩
        rw [hf] at hm
        exact (List.mem_cons.mp hm).elim he h3

lemma allocate_ok {p : PageStore} (hs : Sound p) (hr : p.pageCount < maxPages) :
    ∃ id q, p.allocatePage = (.ok id,q) ∧ Extends p q [id] := by
  obtain ⟨id,q,h⟩ : ∃ id q, p.allocatePage = (.ok id,q) := by
    unfold PageStore.allocatePage
    rw [if_neg (by simp [hs.idle])]
    cases p.freeList with
    | nil => exact ⟨_,_,if_pos hr⟩
    | cons a rest => exact ⟨_,_,rfl⟩
  exact ⟨id,q,h,extends_of_allocate hs h⟩

section Alloc
variable {s : Store}

lemma allocatePage_ok {n : ℕ} (hs : Sound s.pages) (hr : s.pages.pageCount+(n+1) ≤ maxPages)
    (hf : s.faults .alloc (s.seen .alloc) = false) :
    ∃ id q, Ends allocatePage s (some id) (s.after .alloc 1 q) ∧ Extends s.pages q [id] ∧
      q.pageCount+n ≤ maxPages := by
  obtain ⟨id,q,ha,hx⟩ := allocate_ok hs (by omega)
  have hg := hx.grow
  rw [List.length_singleton] at hg
  exact ⟨id,q,call_ok hf ha,hx,by omega⟩

lemma allocMany_ok (text : String) {n : ℕ} (hs : Sound s.pages)
    (hr : s.pages.pageCount+n ≤ maxPages) (hc : s.Clear .alloc n) :
    ∃ ids q, Ends (allocMany text n) s (some ids) (s.after .alloc n q) ∧ ids.length = n ∧
      Extends s.pages q ids := by
  induction n generalizing s with
  | zero =>
    refine ⟨[],s.pages,?_,rfl,.refl hs⟩
    rw [← Store.tick_eq_after,Store.tick_zero]
    rfl
  | succ n ih =>
    obtain ⟨hc0,hc1⟩ := Store.clear_succ.mp hc
    obtain ⟨id,q,ha,hx,hr⟩ := allocatePage_ok hs hr hc0
    obtain ⟨ids,r,hm,hl,hy⟩ := ih (s := s.after .alloc 1 q) hx.sound hr hc1
    rw [Store.after_after,Nat.add_comm 1] at hm
    exact ⟨id::ids,r,(ha.wrap text).bind (hm.bind (ends_pure ..)),by simp [hl],hx.trans hy⟩

lemma allocMany_fault (text : String) {n : ℕ} (hs : Sound s.pages)
    (hr : s.pages.pageCount+n ≤ maxPages) (hc : ¬s.Clear .alloc n) :
    ∃ ids m q, Ends (allocMany text n) s none (s.after .alloc m q) ∧ Extends s.pages q ids := by
  induction n generalizing s with
  | zero => exact absurd Store.clear_zero hc
  | succ n ih =>
    cases hf : s.faults .alloc (s.seen .alloc) with
    | true => exact ⟨[],1,s.pages,((ends_fault hf).wrap text).bind_none,.refl hs⟩
    | false =>
      obtain ⟨id,q,ha,hx,hr⟩ := allocatePage_ok hs hr hf
      obtain ⟨ids,m,r,hm,hy⟩ :=
        ih (s := s.after .alloc 1 q) hx.sound hr fun h => hc (Store.clear_succ.mpr ⟨hf,h⟩)
      rw [Store.after_after] at hm
      exact ⟨id::ids,1+m,r,(ha.wrap text).bind hm.bind_none,hx.trans hy⟩

/-- Overflow pages are asked for until one cannot be had; the ones before it are kept and no
error is raised. -/
lemma allocOverflow_run {n : ℕ} (hs : Sound s.pages) (hr : s.pages.pageCount+n ≤ maxPages) :
    ∃ ids q, Ends (allocOverflow n) s (some (ids,decide (s.Clear .alloc n)))
        (s.after .alloc (s.tried n) q) ∧ ids.length = s.granted n ∧ Extends s.pages q ids := by
  induction n generalizing s with
  | zero =>
    refine ⟨[],s.pages,?_,rfl,.refl hs⟩
    rw [decide_eq_true Store.clear_zero,Store.tried,tried,← Store.tick_eq_after,Store.tick_zero]
    rfl
  | succ n ih =>
    rw [Store.tried,Store.granted,tried,granted]
    cases hf : s.faults .alloc (s.seen .alloc) with
    | true =>
      have hat : Ends (attempt allocatePage) s (some none) (s.after .alloc 1 s.pages) :=
        attempt_err (call_fault hf)
      have hc : ¬s.Clear .alloc (n+1) := fun h => Bool.false_ne_true (h.head.symm.trans hf)
      rw [decide_eq_false hc]
      exact ⟨[],s.pages,hat.bind (ends_pure ..),rfl,.refl hs⟩
    | false =>
      obtain ⟨id,q,ha,hx,hr⟩ := allocatePage_ok hs hr hf
      obtain ⟨ids,r,hm,hl,hy⟩ := ih (s := s.after .alloc 1 q) hx.sound hr
      rw [Store.after_after,Nat.add_comm 1] at hm
      have hat : Ends (attempt allocatePage) s (some (some id)) (s.after .alloc 1 q) := attempt_ok ha
      have hc : decide (s.Clear .alloc (n+1)) = decide ((s.after .alloc 1 q).Clear .alloc n) := by
        simp only [Store.clear_succ,hf,true_and,Store.clear_after]
      simp only [Store.tried,Store.granted,Store.after_faults,Store.after_seen,Store.tick_seen] at hm hl
      rw [hc,if_neg Bool.false_ne_true,if_neg Bool.false_ne_true]
      exact ⟨id::ids,r,hat.bind (hm.bind (ends_pure ..)),congrArg (·+1) hl,hx.trans hy⟩

end Alloc
/-- Pages that a transaction of `p` can write. -/
def Writable (p : PageStore) (ws : List (ℕ × Bytes)) : Prop :=
  ∀ w ∈ ws, p.Live w.1 ∧ w.2.length = dataPageBodySize

/-- Inside a transaction `x` makes exactly the writes `ws` and returns `a`, unless one of them
fails; then it returns an error. -/
def Writes {α : Type} (x : Cmd α) (ws : List (ℕ × Bytes)) (a : α) : Prop :=
  ∀ s : Store, s.pages.txn.isSome → Writable s.pages ws →
    (s.Clear .write ws.length →
      Ends x s (some a) (s.after .write ws.length (buffered s.pages ws))) ∧
    (¬s.Clear .write ws.length → ∃ m us, Ends x s none (s.after .write m (buffered s.pages us)))

/-- Inside a transaction `x` returns an error, having made at most the writes `ws`. -/
def Aborts {α : Type} (x : Cmd α) (ws : List (ℕ × Bytes)) : Prop :=
  ∀ s : Store, s.pages.txn.isSome → Writable s.pages ws →
    ∃ m us, Ends x s none (s.after .write m (buffered s.pages us))

section Writes
variable {α β : Type} {as bs : List (ℕ × Bytes)} {f : α → Cmd β} {x : Cmd α}

@[simp] lemma buffered_isSome (p : PageStore) (ws : List (ℕ × Bytes)) :
    (buffered p ws).txn.isSome = p.txn.isSome := by simp [buffered]

lemma after_zero (s : Store) (c : PagerCall) : s.after c 0 s.pages = s := Store.tick_zero s c

lemma writes_pure (a : α) : Writes (pure a : Cmd α) [] a := by
  intro s _ _
  refine ⟨fun _ => ?_,fun h => absurd Store.clear_zero h⟩
  rw [buffered_nil,List.length_nil,after_zero]
  rfl

lemma writes_codec {x : Except Err α} {a : α} (h : x = .ok a) : Writes (codec x) [] a := by
  subst h
  exact writes_pure a

lemma aborts_codec {x : Except Err α} {e : Err} (h : x = .error e) : Aborts (codec x) [] := by
  intro s _ _
  refine ⟨0,[],e,?_⟩
  rw [buffered_nil,after_zero]
  exact codec_err h s

lemma writes_page (id : ℕ) (b : Bytes) : Writes (writePage id b) [(id,b)] () := by
  intro s ht hw
  obtain ⟨hl,hb⟩ := hw (id,b) (by simp)
  obtain ⟨t,ht⟩ := Option.isSome_iff_exists.mp ht
  have hop : s.pages.writePage id b = (.ok (),buffered s.pages [(id,b)]) := by
    rw [PageStore.writePage,if_neg (not_not.mpr hl),if_neg (not_not.mpr hb),ht]
    simp [buffered,ht]
  refine ⟨fun hc => call_ok hc.head hop,fun hc => ⟨1,[],?_⟩⟩
  have hf : s.faults .write (s.seen .write) = true := by
    by_contra hf
    exact hc (Store.clear_one.mpr (Bool.eq_false_iff.mpr hf))
  rw [buffered_nil]
  exact ends_fault hf

lemma Writes.wrap {ws : List (ℕ × Bytes)} {a : α} (h : Writes x ws a) (text : String) :
    Writes (wrap text x) ws a := by
  intro s ht hw
  refine ⟨fun hc => ((h s ht hw).1 hc).wrap text,fun hc => ?_⟩
  obtain ⟨m,us,he⟩ := (h s ht hw).2 hc
  exact ⟨m,us,he.wrap text⟩

lemma Writable.left {p : PageStore} (h : Writable p (as++bs)) :
    Writable p as := fun w hw => h w (List.mem_append_left _ hw)

lemma Writable.right {p : PageStore} (h : Writable p (as++bs)) :
    Writable p bs := fun w hw => h w (List.mem_append_right _ hw)

theorem Writes.bind {a : α} {b : β}
    (hx : Writes x as a) (hf : Writes (f a) bs b) : Writes (x >>= f) (as++bs) b := by
  intro s ht hw
  have h1 := hx s ht hw.left
  have h2 := hf (s.after .write as.length (buffered s.pages as)) (by simpa using ht) hw.right
  simp only [Store.after_after,Store.after_pages,buffered_buffered,Store.clear_after] at h2
  rw [List.length_append,Store.clear_add]
  refine ⟨fun hc => (h1.1 hc.1).bind (h2.1 hc.2),fun hc => ?_⟩
  by_cases hc1 : s.Clear .write as.length
  · obtain ⟨m,us,he⟩ := h2.2 fun h => hc ⟨hc1,h⟩
    exact ⟨as.length+m,as++us,(h1.1 hc1).bind he⟩
  · obtain ⟨m,us,he⟩ := h1.2 hc1
    exact ⟨m,us,he.bind_none⟩

theorem Writes.bind_aborts {a : α}
    (hx : Writes x as a) (hf : Aborts (f a) bs) : Aborts (x >>= f) (as++bs) := by
  intro s ht hw
  have h1 := hx s ht hw.left
  by_cases hc : s.Clear .write as.length
  · obtain ⟨m,us,he⟩ :=
      hf (s.after .write as.length (buffered s.pages as)) (by simpa using ht) hw.right
    simp only [Store.after_after,Store.after_pages,buffered_buffered] at he
    exact ⟨as.length+m,as++us,(h1.1 hc).bind he⟩
  · obtain ⟨m,us,he⟩ := h1.2 hc
    exact ⟨m,us,he.bind_none⟩

lemma Aborts.bind {ws : List (ℕ × Bytes)} (hx : Aborts x ws) :
    Aborts (x >>= f) ws := by
  intro s ht hw
  obtain ⟨m,us,he⟩ := hx s ht hw
  exact ⟨m,us,he.bind_none⟩

end Writes

section Rollback
variable {α β : Type} {s s' : Store} {x : Cmd α}

lemma orRollback_ok {a : α} (h : x s = (.ok a,s')) :
    orRollback x s = (.ok a,s') := Prog.handle_ok h

lemma call_error {c : PagerCall} {op : PageStore → Except Pager.Err α × PageStore}
    {f : Fail} (h : call c op s = (.error f,s')) : ∃ e, f = .err e := by
  unfold call at h
  split at h
  · cases h
    exact ⟨_,rfl⟩
  · cases hr : (op s.pages).1 with
    | ok a => simp [hr,Except.mapError] at h
    | error e =>
      simp only [hr,Except.mapError,Prod.mk.injEq,Except.error.injEq] at h
      exact ⟨_,h.1.symm⟩

lemma attempt_rollback (s : Store) : ∃ r, attempt rollbackTx s = (.ok r,(rollbackTx s).2) := by
  cases hr : rollbackTx s with
  | mk r s' =>
    cases r with
    | ok a => exact ⟨_,attempt_ok hr⟩
    | error f =>
      obtain ⟨e,rfl⟩ := call_error hr
      exact ⟨_,attempt_err hr⟩

lemma orRollback_err {e : Err} (h : x s = (.error (.err e),s')) :
    orRollback x s = (.error (.err e),(rollbackTx s').2) := by
  obtain ⟨r,hr⟩ := attempt_rollback s'
  refine (Prog.handle_error h).trans ?_
  exact Prog.bind_ok hr

lemma orRollback_stop {f : Fail} (h : x s = (.error f,s'))
    (hf : ∀ e, f≠.err e) : orRollback x s = (.error f,s') := by
  refine (Prog.handle_error h).trans ?_
  cases f with
  | err e => exact absurd rfl (hf e)
  | panic => rfl
  | diverge => rfl

lemma orRollback_bind (x : Cmd α) (f : α → Cmd β) :
    (orRollback x >>= fun a => orRollback (f a)) = orRollback (x >>= f) := by
  funext s
  cases hx : x s with
  | mk r s' =>
    cases r with
    | ok a =>
      rw [Prog.bind_ok (orRollback_ok hx)]
      cases hf : f a s' with
      | mk r' s'' =>
        have hb : (x >>= f) s = (r',s'') := (Prog.bind_ok hx).trans hf
        simp only [orRollback,Prog.handle,hf,hb]
    | error e =>
      have hb : (x >>= f) s = (.error e,s') := Prog.bind_error hx
      cases e with
      | err e => rw [Prog.bind_error (orRollback_err hx),orRollback_err hb]
      | panic => rw [Prog.bind_error (orRollback_stop hx (by simp)),orRollback_stop hb (by simp)]
      | diverge => rw [Prog.bind_error (orRollback_stop hx (by simp)),orRollback_stop hb (by simp)]

lemma Ends.orRollback {a : α} (h : Ends x s (some a) s') :
    Ends (orRollback x) s (some a) s' := orRollback_ok h

def inTx (commit : Cmd Unit) (x : Cmd α) : Cmd α := do
  wrap "kv: begin tx" beginTx
  let a ← orRollback x
  commit
  pure a

/-- A commit as the source calls it, with or without wrapping its error. -/
def IsCommit (commit : Cmd Unit) : Prop := ∀ s r s', Ends commitTx s r s' → Ends commit s r s'

lemma isCommit_commitTx : IsCommit commitTx := fun _ _ _ h => h

lemma isCommit_wrap (text : String) : IsCommit (wrap text commitTx) := fun _ _ _ h => h.wrap text

/-- The two stores differ in their pages and in the calls counted. -/
structure SameHandle (s s' : Store) : Prop where
  faults : s'.faults = s.faults
  root : s'.rootPageID = s.rootPageID
  opened : s'.isOpen = s.isOpen
  closed : s'.closed = s.closed

lemma SameHandle.refl (s : Store) : SameHandle s s := ⟨rfl,rfl,rfl,rfl⟩

lemma SameHandle.trans {s s' s'' : Store} (h : SameHandle s s') (g : SameHandle s' s'') :
    SameHandle s s'' :=
  ⟨g.faults.trans h.faults,g.root.trans h.root,g.opened.trans h.opened,g.closed.trans h.closed⟩

def begun (s : Store) : Store := s.after .begin 1 { s.pages with txn := some fun _ => none }

lemma begin_ok {s : Store} (hi : s.pages.txn = none) (hf : s.faults .begin (s.seen .begin) = false) :
    Ends beginTx s (some ()) (begun s) := by
  refine call_ok hf ?_
  rw [PageStore.beginTx,if_neg (by simp [hi])]

lemma commit_ok {s : Store} (hi : s.pages.txn.isSome)
    (hf : s.faults .commit (s.seen .commit) = false) :
    Ends commitTx s (some ()) (s.after .commit 1 { s.pages with body := s.pages.view, txn := none }) := by
  obtain ⟨t,ht⟩ := Option.isSome_iff_exists.mp hi
  refine call_ok hf ?_
  rw [PageStore.commitTx,ht]

lemma rollback_ok {s : Store} (hi : s.pages.txn.isSome)
    (hf : s.faults .rollback (s.seen .rollback) = false) :
    (rollbackTx s).2 = s.after .rollback 1 { s.pages with txn := none } := by
  obtain ⟨t,ht⟩ := Option.isSome_iff_exists.mp hi
  have hr : rollbackTx s = _ := call_ok hf (by rw [PageStore.rollbackTx,ht])
  rw [hr]
  rfl

section InTx
variable {s : Store} {commit : Cmd Unit} {x : Cmd α} {ws : List (ℕ × Bytes)} {a : α}

lemma inTx_begin_fault (hf : s.faults .begin (s.seen .begin) = true) :
    Ends (inTx commit x) s none (s.after .begin 1 s.pages) := ((ends_fault hf).wrap _).bind_none

lemma faults_begun {c : PagerCall} (hb : c≠.begin) (hw : c≠.write) (n : ℕ) (p : PageStore) :
    ((begun s).after .write n p).faults c (((begun s).after .write n p).seen c) =
      s.faults c (s.seen c) := by
  rw [Store.after_faults,Store.after_seen,Store.tick_seen_ne _ _ hw,begun,Store.after_faults,
    Store.after_seen,
    Store.tick_seen_ne _ _ hb]

variable (hi : s.pages.txn = none) (hb : s.faults .begin (s.seen .begin) = false)
include hi hb

section Commit
variable (hc : IsCommit commit) (hx : Writes x ws a) (hw : Writable s.pages ws)
  (hcl : s.Clear .write ws.length)
include hc hx hw hcl

theorem inTx_ok (hcf : s.faults .commit (s.seen .commit) = false) :
    ∃ s', Ends (inTx commit x) s (some a) s' ∧ SameHandle s s' ∧ s'.pages = written s.pages ws := by
  have ht : (begun s).pages.txn.isSome := rfl
  have hrun := (hx (begun s) ht hw).1 ((Store.clear_after_ne (by decide)).mpr hcl)
  have hcom := commit_ok (s := (begun s).after .write ws.length (buffered (begun s).pages ws))
    (by simpa using ht) ((faults_begun (by decide) (by decide) ..).trans hcf)
  refine ⟨_,((begin_ok hi hb).wrap _).bind (hrun.orRollback.bind
    ((hc _ _ _ hcom).bind (ends_pure a _))),⟨rfl,rfl,rfl,rfl⟩,?_⟩
  have hv : (begun s).pages.view = s.pages.body := by
    funext id
    rfl
  simp only [Store.after_pages,view_buffered ht,hv]
  rfl

/-- All writes succeed and the commit does not: the transaction stays open. -/
theorem inTx_commit_fault (hcf : s.faults .commit (s.seen .commit) = true) :
    ∃ s', Ends (inTx commit x) s none s' ∧ SameHandle s s' ∧ s'.pages.txn.isSome := by
  have ht : (begun s).pages.txn.isSome := rfl
  have hrun := (hx (begun s) ht hw).1 ((Store.clear_after_ne (by decide)).mpr hcl)
  have hcom : Ends commitTx ((begun s).after .write ws.length (buffered (begun s).pages ws)) none _ :=
    ends_fault ((faults_begun (by decide) (by decide) ..).trans hcf)
  refine ⟨_,((begin_ok hi hb).wrap _).bind (hrun.orRollback.bind
    (hc _ _ _ hcom).bind_none),⟨rfl,rfl,rfl,rfl⟩,?_⟩
  simpa using ht

end Commit

variable (commit) (hx : ∃ m us,
  Ends x (begun s) none ((begun s).after .write m (buffered (begun s).pages us)))
include hx

theorem inTx_rollback (hrf : s.faults .rollback (s.seen .rollback) = false) :
    ∃ s', Ends (inTx commit x) s none s' ∧ SameHandle s s' ∧ s'.pages = s.pages := by
  obtain ⟨m,us,e,he⟩ := hx
  have hr := rollback_ok (s := (begun s).after .write m (buffered (begun s).pages us))
    (by simp [begun]) ((faults_begun (by decide) (by decide) ..).trans hrf)
  have hor : Ends (orRollback x) (begun s) none _ := ⟨e,orRollback_err he⟩
  rw [hr] at hor
  refine ⟨_,((begin_ok hi hb).wrap _).bind hor.bind_none,⟨rfl,rfl,rfl,rfl⟩,?_⟩
  have hp : s.pages = { s.pages with txn := none } := by rw [← hi]
  simp only [Store.after_pages]
  exact hp.symm

theorem inTx_rollback_fault (hrf : s.faults .rollback (s.seen .rollback) = true) :
    ∃ s', Ends (inTx commit x) s none s' ∧ SameHandle s s' ∧ s'.pages.txn.isSome := by
  obtain ⟨m,us,e,he⟩ := hx
  have hf : rollbackTx ((begun s).after .write m (buffered (begun s).pages us)) = _ :=
    call_fault ((faults_begun (by decide) (by decide) ..).trans hrf)
  have hor : Ends (orRollback x) (begun s) none _ := ⟨e,orRollback_err he⟩
  rw [hf] at hor
  refine ⟨_,((begin_ok hi hb).wrap _).bind hor.bind_none,⟨rfl,rfl,rfl,rfl⟩,?_⟩
  simp [begun]

end InTx
end Rollback
end Plomvix.KV
