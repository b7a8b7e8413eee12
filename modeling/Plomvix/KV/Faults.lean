import Plomvix.KV.Frame

/-! Writes over a pager whose calls may fail. A write is atomic when it does not panic, does
what it reports, and leaves the store usable; the exact patterns for which that holds. -/
namespace Plomvix.KV
open Lib Pager BPlus

/-- The store with a fault pattern from here on. -/
def Store.under (s : Store) (f : PagerCall → ℕ → Bool) : Store := { s with faults := f }

/-- Key and value keep to the limits of the store. -/
def Op.Admitted : Op → Prop
  | .set k v => k.length ≤ maxKeySize ∧ v.length ≤ maxValSizeEnterprise
  | .delete k => k.length ≤ maxKeySize

/-- What `Get` of the key returns after the write. -/
def Op.result : Op → Except Fail Bytes
  | .set _ v => .ok v
  | .delete _ => .error (.err .keyNotFound)

/-- No transaction is open, and a later `Set` over a healthy pager with room succeeds. -/
def Store.Usable (s : Store) : Prop :=
  s.pages.txn = none ∧ ∀ k v, k.length ≤ maxKeySize → v.length+8 ≤ maxValSizeEnterprise →
    s.healed.Roomy → (set k v s.healed).1 = .ok ()

instance (op : Op) : Decidable op.Admitted := by
  cases op <;> unfold Op.Admitted <;> infer_instance

/-- The write returns; on success the key has its new value, on error every key its old one. -/
structure Op.Atomic (op : Op) (s : Store) : Prop where
  returns : (op.run s).1≠.error .panic ∧ (op.run s).1≠.error .diverge
  stored : (op.run s).1 = .ok () → (get op.key (op.run s).2.healed).1 = op.result
  kept : ∀ e, (op.run s).1 = .error (.err e) →
    ∀ j, (get j (op.run s).2.healed).1 = (get j s.healed).1
  usable : (op.run s).2.Usable

def Store.Next (s : Store) (c : PagerCall) : Prop := s.faults c (s.seen c) = false

instance (s : Store) (c : PagerCall) : Decidable (s.Next c) := by unfold Store.Next; infer_instance

/-- A transaction of `n` writes either commits, or is rolled back after a write failed. -/
def Store.Settles (s : Store) (n : ℕ) : Prop :=
  if s.Clear .write n then s.Next .commit else s.Next .rollback

/-- The fault patterns under which a write is atomic. -/
def Op.Safe (s : Store) : Op → Prop
  | .set k v =>
    let n := overflowCount v
    let calls := setFootprint s k
    -- the transaction is never begun
    ¬Arrives s k v ∨ ¬s.Next .begin ∨
    -- all overflow pages were granted
    s.Clear .alloc n ∧ (if v.length+8 ≤ maxValSizeEnterprise then s.Settles (n+calls.pages)
      else calls.late = true → s.Next .rollback) ∨
    -- an overflow page was refused: only a failing write undoes the empty value
    ¬s.Clear .alloc n ∧ (s.rootPageID = rootSentinel ∨ s.granted n = 0) ∧
      ¬s.Clear .write (s.granted n+calls.pages) ∧ s.Next .rollback
  | .delete k =>
    ¬s.Clear .read (setFootprint s k).reads ∨ (KV.get k s.healed).1 = .error (.err .keyNotFound) ∨
      ¬s.Next .begin ∨ s.Settles 1

/-- Stores reached from an empty pager by admitted writes, each under a pattern it is safe for. -/
inductive Visited : Store → Prop
  | opened {s : Store} (h : openStore (newBtreeStore .empty noFaults) = (.ok (),s)) : Visited s
  | step {s : Store} (h : Visited s) (hr : s.Roomy) (f : PagerCall → ℕ → Bool) (op : Op)
      (ha : op.Admitted) (hsafe : op.Safe (s.under f)) : Visited (op.run (s.under f)).2

def Op.Settled (op : Op) (s : Store) : Prop :=
  op.Atomic s ∧ (op.run s).2.Opened ∧ ∃ o, Shows (op.run s).2.pages (op.run s).2.rootPageID o

/-- The condition decides whether the write is atomic. -/
structure Op.Decides (op : Op) (s : Store) (c : Prop) : Prop where
  settled : c → op.Settled s
  broken : ¬c → ¬op.Atomic s

section Outcome
variable {op : Op} {s : Store} {o : Root} {c : Prop}

lemma Op.Decides.of_settled (h : op.Settled s) (hc : c) : op.Decides s c :=
  ⟨fun _ => h,fun h' => absurd hc h'⟩

lemma Op.Decides.of_broken (h : ¬op.Atomic s) (hc : ¬c) : op.Decides s c :=
  ⟨fun h' => absurd h' hc,fun _ => h⟩

lemma Op.Decides.congr {d : Prop} (h : op.Decides s c) (hcd : d ↔ c) : op.Decides s d :=
  ⟨fun hd => h.settled (hcd.mp hd),fun hd => h.broken fun hc => hd (hcd.mpr hc)⟩

lemma Op.Decides.iff (h : op.Decides s c) : op.Atomic s ↔ c :=
  ⟨fun ha => by_contra fun hc => h.broken hc ha,fun hc => (h.settled hc).1⟩

lemma Store.not_next {c : PagerCall} (h : ¬s.Next c) : s.faults c (s.seen c) = true :=
  Bool.eq_true_of_not_eq_false h

lemma Shows.healed (hs : Shows s.pages s.rootPageID o) (ho : s.Opened) : Good s.healed o :=
  ⟨fun _ _ => rfl,ho,hs⟩

lemma Shows.usable (hs : Shows s.pages s.rootPageID o) (ho : s.Opened) : s.Usable := by
  refine ⟨hs.sound.idle,fun k v hk hv hr => ?_⟩
  obtain ⟨s',o',e,hrun,-⟩ := (hs.healed ho).set_ok hr hk hv
  rw [hrun]

lemma settled_of_ok (op : Op) {s' : Store} {o' : Root} (hrun : op.run s = (.ok (),s'))
    (hs' : Shows s'.pages s'.rootPageID o') (ho' : s'.Opened)
    (hv : found (Assoc.lookup op.key o'.contents) = op.result) : op.Settled s := by
  refine ⟨⟨?_,?_,?_,?_⟩,?_,o',?_⟩ <;> rw [hrun]
  · exact ⟨nofun,nofun⟩
  · intro _
    rw [(hs'.healed ho').get,hv]
  · exact nofun
  · exact hs'.usable ho'
  · exact ho'
  · exact hs'

lemma Undone.settled (op : Op) (h : Undone op.run s o) (hs : Shows s.pages s.rootPageID o)
    (ho : s.Opened) :
    op.Settled s := by
  obtain ⟨e,s',hrun,hs',-,hopen,hclosed⟩ := h
  have ho' : s'.Opened := ⟨hopen.trans ho.1,hclosed.trans ho.2⟩
  refine ⟨⟨?_,?_,?_,?_⟩,?_,o,?_⟩ <;> rw [hrun]
  · exact ⟨nofun,nofun⟩
  · exact nofun
  · intro e _ j
    rw [(hs'.healed ho').get,(hs.healed ho).get]
  · exact hs'.usable ho'
  · exact ho'
  · exact hs'

lemma LeavesOpen.not_atomic (h : LeavesOpen op.run s) : ¬op.Atomic s := by
  obtain ⟨e,s',hrun,ht⟩ := h
  intro ha
  have hu := ha.usable.1
  rw [hrun] at hu
  rw [hu] at ht
  cases ht

section Prepared
variable (op) {s₁ : Store} {n : ℕ} {o' : Root} (h : Prepared op.run s s₁ n o')
  (hs : Shows s.pages s.rootPageID o) (ho : s.Opened)
include h hs ho

/-- A prepared write of the right value needs its transaction to settle. -/
theorem Prepared.decides (hv : found (Assoc.lookup op.key o'.contents) = op.result) :
    op.Decides s (¬s.Next .begin ∨ s.Settles n) := by
  by_cases hb : s.Next .begin
  · apply Op.Decides.congr (c := s.Settles n) _ (or_iff_right (not_not.mpr hb))
    unfold Store.Settles
    by_cases hw : s.Clear .write n
    · rw [if_pos hw]
      by_cases hc : s.Next .commit
      · obtain ⟨s',hrun,hs',-,hopen,hclosed,-⟩ := h.commits hb hw hc
        exact .of_settled (settled_of_ok op hrun hs' ⟨hopen.trans ho.1,hclosed.trans ho.2⟩ hv) hc
      · exact .of_broken (h.commit_fault hb hw (Store.not_next hc)).not_atomic hc
    · rw [if_neg hw]
      by_cases hr : s.Next .rollback
      · exact .of_settled ((h.rolls_back hs hb hw hr).settled op hs ho) hr
      · exact .of_broken (h.rollback_fault hb hw (Store.not_next hr)).not_atomic hr
  · exact .of_settled ((h.begin_fault hs (Store.not_next hb)).settled op hs ho) (.inl hb)

/-- A prepared write of a wrong value must not be committed. -/
theorem Prepared.decides_wrong (hv : found (Assoc.lookup op.key o'.contents)≠op.result) :
    op.Decides s (¬s.Next .begin ∨ ¬s.Clear .write n ∧ s.Next .rollback) := by
  by_cases hb : s.Next .begin
  · apply Op.Decides.congr (c := ¬s.Clear .write n ∧ s.Next .rollback) _ (or_iff_right (not_not.mpr hb))
    by_cases hw : s.Clear .write n
    · refine .of_broken (fun ha => ?_) fun hx => hx.1 hw
      by_cases hc : s.Next .commit
      · obtain ⟨s',hrun,hs',-,hopen,hclosed,-⟩ := h.commits hb hw hc
        have ho' : s'.Opened := ⟨hopen.trans ho.1,hclosed.trans ho.2⟩
        have hst := ha.stored (by rw [hrun])
        rw [hrun,(hs'.healed ho').get] at hst
        exact hv hst
      · exact (h.commit_fault hb hw (Store.not_next hc)).not_atomic ha
    · by_cases hr : s.Next .rollback
      · exact .of_settled ((h.rolls_back hs hb hw hr).settled op hs ho) ⟨hw,hr⟩
      · exact .of_broken (h.rollback_fault hb hw (Store.not_next hr)).not_atomic fun hx => hr hx.2
  · exact .of_settled ((h.begin_fault hs (Store.not_next hb)).settled op hs ho) (.inl hb)

end Prepared

lemma Doomed.decides (op : Op) {s₁ : Store} (h : Doomed op.run s s₁) (hs : Shows s.pages s.rootPageID o)
    (ho : s.Opened) : op.Decides s (¬s.Next .begin ∨ s.Next .rollback) := by
  by_cases hb : s.Next .begin
  · apply Op.Decides.congr (c := s.Next .rollback) _ (or_iff_right (not_not.mpr hb))
    by_cases hr : s.Next .rollback
    · exact .of_settled ((h.rolls_back hs hb hr).settled op hs ho) hr
    · exact .of_broken (h.rollback_fault hb (Store.not_next hr)).not_atomic hr
  · exact .of_settled ((h.begin_fault hs (Store.not_next hb)).settled op hs ho) (.inl hb)

lemma Crashes.decides (op : Op) {s₁ : Store} (h : Crashes op.run s s₁) (hs : Shows s.pages s.rootPageID o)
    (ho : s.Opened) : op.Decides s (¬s.Next .begin) := by
  by_cases hb : s.Next .begin
  · obtain ⟨s',hrun⟩ := h.panics hb
    exact .of_broken (fun ha => ha.returns.1 (by rw [hrun])) (not_not.mpr hb)
  · exact .of_settled ((h.begin_fault hs (Store.not_next hb)).settled op hs ho) hb

end Outcome
section Writes
variable {s : Store} {o : Root} {k : Key} (hs : Shows s.pages s.rootPageID o) (ho : s.Opened)
include hs

lemma found_withLeaf_put {o' : Root} (e : Slot)
    (hc : o'.contents = o.withLeaf k (Assoc.put k e (flatten (o.leafAt k)))) :
    found (Assoc.lookup k o'.contents) = .ok e.value := by
  rw [hc,hs.lookup_withLeaf_self,Assoc.lookup_put,if_pos rfl]
  rfl

lemma found_withLeaf_erase {o' : Root}
    (hc : o'.contents = o.withLeaf k (Assoc.erase k (flatten (o.leafAt k)))) :
    found (Assoc.lookup k o'.contents) = .error (.err .keyNotFound) := by
  rw [hc,hs.lookup_withLeaf_self,Assoc.lookup_erase,if_pos rfl]
  rfl

include ho

theorem set_decides (hr : s.Roomy) {v : Bytes} (hk : k.length ≤ maxKeySize)
    (hv : v.length ≤ maxValSizeEnterprise) : (Op.set k v).Decides s ((Op.set k v).Safe s) := by
  by_cases ha : Arrives s k v
  · by_cases hc : s.Clear .alloc (overflowCount v)
    · by_cases hfit : v.length+8 ≤ maxValSizeEnterprise
      · obtain ⟨s₁,o',e,hval,hpr,hcont,-⟩ := set_prepared hs ho hr hk hv ha hc hfit
        refine (Prepared.decides (.set k v) hpr hs ho ?_).congr (by simp [Op.Safe,ha,hc,hfit])
        exact (found_withLeaf_put hs e hcont).trans (by rw [hval,Op.result])
      · have hover := set_oversize hs ho hr hk hv ha hc (not_le.mp hfit)
        by_cases hl : (setFootprint s k).late = true
        · rw [if_pos hl] at hover
          obtain ⟨s₁,hd⟩ := hover
          exact (Doomed.decides (.set k v) hd hs ho).congr (by simp [Op.Safe,ha,hc,hfit,hl])
        · rw [if_neg hl] at hover
          exact .of_settled (Undone.settled (.set k v) hover hs ho) (by simp [Op.Safe,hc,hfit,hl])
    · by_cases hg : s.rootPageID = rootSentinel ∨ s.granted (overflowCount v) = 0
      · obtain ⟨s₁,o',e,hval,hpr,hcont⟩ := set_truncated hs ho hr hk hv ha hc hg
        refine (Prepared.decides_wrong (.set k v) hpr hs ho fun hf => ?_).congr
          (by simp [Op.Safe,ha,hc,hg])
        -- an empty value needs no overflow page, so none could have been refused
        have hnil := (found_withLeaf_put hs e hcont).symm.trans hf
        rw [hval] at hnil
        cases hnil
        exact hc Store.clear_zero
      · have hg' := not_or.mp hg
        obtain ⟨s₁,hcr⟩ := set_crashes hs ho hr hk hv ha hc hg'.1 hg'.2
        exact (Crashes.decides (.set k v) hcr hs ho).congr (by simp [Op.Safe,ha,hc,hg])
  · exact .of_settled (Undone.settled (.set k v) (set_undone hs ho hr hk hv ha) hs ho) (.inl ha)

theorem delete_decides (k : Key) : (Op.delete k).Decides s ((Op.delete k).Safe s) := by
  have habs := (hs.healed ho).absent_iff k
  by_cases hread : s.Clear .read (setFootprint s k).reads
  · by_cases hk : k ∈ (o.leafAt k).map Prod.fst
    · obtain ⟨s₁,o',hpr,hcont,-⟩ := delete_prepared hs ho hread hk
      refine (Prepared.decides (.delete k) hpr hs ho (found_withLeaf_erase hs hcont)).congr ?_
      simp [Op.Safe,hread,mt habs.mp (not_not.mpr hk)]
    · obtain ⟨m,hrun⟩ := delete_absent hs ho hread hk
      refine .of_settled (settled_of_ok (.delete k) hrun hs ho ?_) (.inr (.inl (habs.mpr hk)))
      rw [← (hs.healed ho).get]
      exact habs.mpr hk
  · exact .of_settled (Undone.settled (.delete k) (delete_undone hs ho hread) hs ho) (.inl hread)

theorem write_decides (hr : s.Roomy) (op : Op) (ha : op.Admitted) : op.Decides s (op.Safe s) := by
  cases op with
  | set k v => exact set_decides hs ho hr ha.1 ha.2
  | delete k => exact delete_decides hs ho k

end Writes

theorem Visited.shows {s : Store} (h : Visited s) :
    s.Opened ∧ ∃ o, Shows s.pages s.rootPageID o := by
  induction h with
  | opened h =>
    obtain ⟨s',hrun,hg,-⟩ := open_fresh
    rw [hrun] at h
    cases h
    exact ⟨hg.opened,none,hg.shows⟩
  | @step s h hr f op ha hsafe ih =>
    obtain ⟨ho,o,hs⟩ := ih
    exact ((write_decides (s := s.under f) hs ho hr op ha).settled hsafe).2

/-- A write is atomic exactly under the safe fault patterns. -/
theorem write_atomic_iff {s : Store} (h : Visited s) (hr : s.Roomy) (f : PagerCall → ℕ → Bool) (op : Op)
    (ha : op.Admitted) : op.Atomic (s.under f) ↔ op.Safe (s.under f) := by
  obtain ⟨ho,o,hs⟩ := h.shows
  exact (write_decides (s := s.under f) hs ho hr op ha).iff

/-- Every call of one kind fails. -/
def failing (c : PagerCall) : PagerCall → ℕ → Bool := fun c' _ => c' == c

lemma visited_fresh : Visited freshStore := by
  obtain ⟨s,hrun,-⟩ := open_fresh
  rw [freshStore,hrun]
  exact .opened hrun

theorem write_atomic_no_begin :
    (Op.set [1] [2]).Admitted ∧ (Op.set [1] [2]).Atomic (freshStore.under (failing .begin)) := by
  refine ⟨by decide,?_⟩
  apply (write_atomic_iff visited_fresh roomy_fresh (failing .begin) (.set [1] [2]) (by decide)).mpr
  exact .inr (.inl (by simp [Store.Next,Store.under,failing]))

/-- After a failed commit the transaction stays open, and a later `Set` over a healthy pager fails. -/
theorem commit_fault_blocks_writes :
    ∃ s, s = ((Op.set [1] [2]).run (freshStore.under (failing .commit))).2 ∧
      Visited freshStore ∧ freshStore.Roomy ∧ (Op.set [1] [2]).Admitted ∧
      s.pages.txn.isSome = true ∧ s.healed.Roomy ∧ (set [3] [4] s.healed).1≠.ok () ∧
      ¬(Op.set [1] [2]).Atomic (freshStore.under (failing .commit)) := by
  have hopen : ((Op.set [1] [2]).run (freshStore.under (failing .commit))).2.pages.txn.isSome = true := by
    decide +kernel
  refine ⟨_,rfl,visited_fresh,roomy_fresh,by decide,hopen,?_,?_,fun ha => ?_⟩
  · unfold Store.Roomy
    decide +kernel
  · decide +kernel
  · rw [ha.usable.1] at hopen
    cases hopen

end Plomvix.KV
