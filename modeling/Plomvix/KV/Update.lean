import Plomvix.KV.Rewrite

/-! The write operations as single transactions. What comes before the transaction only
reads and allocates; `Prepared` says which writes the transaction makes and which tree the
store shows once they are committed. -/
namespace Plomvix.KV
open Lib Pager BPlus

/-- Only reads and allocations have been made: nothing shown is lost. -/
structure Quiet (s s₁ : Store) : Prop extends SameHandle s s₁ where
  counts : ∀ c, c≠.alloc → c≠.read → s₁.seen c = s.seen c
  grown : ∃ ids, Extends s.pages s₁.pages ids

lemma Quiet.refl {s : Store} (h : Sound s.pages) : Quiet s s :=
  ⟨.refl s,fun _ _ _ => rfl,[],.refl h⟩

lemma Quiet.trans {s s₁ s₂ : Store} (h : Quiet s s₁) (g : Quiet s₁ s₂) : Quiet s s₂ := by
  obtain ⟨as,ha⟩ := h.grown
  obtain ⟨bs,hb⟩ := g.grown
  exact ⟨h.toSameHandle.trans g.toSameHandle,
    fun c h1 h2 => (g.counts c h1 h2).trans (h.counts c h1 h2),as++bs,ha.trans hb⟩

lemma quiet_read {s : Store} (h : Sound s.pages) (n : ℕ) : Quiet s (s.tick .read n) :=
  ⟨⟨rfl,rfl,rfl,rfl⟩,fun _ _ hc => Store.tick_seen_ne s n hc,[],.refl h⟩

lemma quiet_alloc {s : Store} {q : PageStore} {ids : List ℕ} (h : Extends s.pages q ids) (n : ℕ) :
    Quiet s (s.after .alloc n q) :=
  ⟨⟨rfl,rfl,rfl,rfl⟩,fun _ hc _ => Store.tick_seen_ne s n hc,ids,h⟩

lemma Quiet.clear {s s₁ : Store} (h : Quiet s s₁) {c : PagerCall} (h1 : c≠.alloc) (h2 : c≠.read)
    (n : ℕ) : s₁.Clear c n ↔ s.Clear c n := by
  simp only [Store.Clear,h.faults,h.counts c h1 h2]

lemma Quiet.fault {s s₁ : Store} (h : Quiet s s₁) {c : PagerCall} (h1 : c≠.alloc) (h2 : c≠.read) :
    s₁.faults c (s₁.seen c) = s.faults c (s.seen c) := by
  rw [h.faults,h.counts c h1 h2]

def publish (r : ℕ) : Cmd Unit := if r≠0 then setRoot r else pure ()

/-- The root after a transaction that returned `r`. -/
def newRootID (old r : ℕ) : ℕ := if r≠0 then r else old

lemma publish_run (r : ℕ) (s : Store) :
    publish r s = (.ok (),{ s with rootPageID := newRootID s.rootPageID r }) := by
  unfold publish newRootID
  split <;> rfl

/-- From `s`, the operation `x` comes quietly to `s₁` and to a transaction of `n` writes there;
when they are committed the store shows `o`. -/
def Prepared (x : Cmd Unit) (s s₁ : Store) (n : ℕ) (o : Root) : Prop :=
  Quiet s s₁ ∧ ∃ (commit : Cmd Unit) (body : Cmd ℕ) (ws : List (ℕ × Bytes)) (r : ℕ),
    IsCommit commit ∧ Writes body ws r ∧ Writable s₁.pages ws ∧ ws.length = n ∧
    x s = (inTx commit body >>= publish) s₁ ∧
    Shows (written s₁.pages ws) (newRootID s.rootPageID r) o

def Doomed (x : Cmd Unit) (s s₁ : Store) : Prop :=
  Quiet s s₁ ∧ ∃ (commit : Cmd Unit) (body : Cmd ℕ) (ws : List (ℕ × Bytes)),
    Aborts body ws ∧ Writable s₁.pages ws ∧ x s = (inTx commit body >>= publish) s₁

section Outcome
variable {x : Cmd Unit} {s s₁ : Store} {n : ℕ} {o o₀ : Root}

lemma Prepared.quiet_then {y : Cmd Unit} {s₀ : Store} (h : Prepared x s s₁ n o) (hq : Quiet s₀ s)
    (he : y s₀ = x s) : Prepared y s₀ s₁ n o := by
  obtain ⟨hq',commit,body,ws,r,h1,h2,h3,h4,h5,h6⟩ := h
  exact ⟨hq.trans hq',commit,body,ws,r,h1,h2,h3,h4,he.trans h5,hq.root ▸ h6⟩

lemma Doomed.quiet_then {y : Cmd Unit} {s₀ : Store} (h : Doomed x s s₁) (hq : Quiet s₀ s)
    (he : y s₀ = x s) : Doomed y s₀ s₁ := by
  obtain ⟨hq',commit,body,ws,h1,h2,h3⟩ := h
  exact ⟨hq.trans hq',commit,body,ws,h1,h2,he.trans h3⟩

theorem Prepared.commits (h : Prepared x s s₁ n o) (hb : s.faults .begin (s.seen .begin) = false)
    (hw : s.Clear .write n) (hc : s.faults .commit (s.seen .commit) = false) :
    ∃ s', x s = (.ok (),s') ∧ Shows s'.pages s'.rootPageID o ∧ s'.faults = s.faults ∧
      s'.isOpen = s.isOpen ∧ s'.closed = s.closed ∧ s'.pages.pageCount = s₁.pages.pageCount ∧
      s'.pages.freeList = s₁.pages.freeList := by
  obtain ⟨hq,commit,body,ws,r,hcm,hx,hwr,rfl,he,hsh⟩ := h
  obtain ⟨ids,hg⟩ := hq.grown
  obtain ⟨s₂,hrun,hsame,hpages⟩ :=
    inTx_ok hg.sound.idle ((hq.fault (by decide) (by decide)).trans hb) hcm hx hwr
    ((hq.clear (by decide) (by decide) _).mpr hw)
    ((hq.fault (by decide) (by decide)).trans hc)
  refine ⟨{ s₂ with rootPageID := newRootID s₂.rootPageID r },?_,?_,hsame.faults.trans hq.faults,
    hsame.opened.trans hq.opened,hsame.closed.trans hq.closed,?_,?_⟩
  · exact he.trans ((Prog.bind_ok hrun).trans (publish_run r s₂))
  · change Shows s₂.pages (newRootID s₂.rootPageID r) o
    rw [hpages,hsame.root,hq.root]
    exact hsh
  · change s₂.pages.pageCount = _
    rw [hpages]
    rfl
  · change s₂.pages.freeList = _
    rw [hpages]
    rfl

def LeavesOpen (x : Cmd Unit) (s : Store) : Prop :=
  ∃ e s', x s = (.error (.err e),s') ∧ s'.pages.txn.isSome

/-- An error is returned and the store shows what it showed before. -/
def Undone (x : Cmd Unit) (s : Store) (o : Root) : Prop :=
  ∃ e s', x s = (.error (.err e),s') ∧ Shows s'.pages s'.rootPageID o ∧ s'.faults = s.faults ∧
    s'.isOpen = s.isOpen ∧ s'.closed = s.closed

lemma undone_of_ends {s' : Store} (hs : Shows s.pages s.rootPageID o₀) (hx : Ends x s none s')
    (hq : Quiet s s') : Undone x s o₀ := by
  obtain ⟨e,he⟩ := hx
  obtain ⟨ids,hg⟩ := hq.grown
  exact ⟨e,s',he,hq.root ▸ hs.extend hg,hq.faults,hq.opened,hq.closed⟩

lemma undone_of_inTx {commit : Cmd Unit} {body : Cmd ℕ} {s₂ : Store}
    (hs : Shows s.pages s.rootPageID o₀) (hq : Quiet s s₁)
    (he : x s = (inTx commit body >>= publish) s₁) (hx : Ends (inTx commit body) s₁ none s₂)
    (hsame : SameHandle s₁ s₂) (hp : s₂.pages = s₁.pages) : Undone x s o₀ := by
  obtain ⟨e,hx⟩ := hx
  obtain ⟨ids,hg⟩ := hq.grown
  refine ⟨e,s₂,he.trans (Prog.bind_error hx),?_,hsame.faults.trans hq.faults,
    hsame.opened.trans hq.opened,hsame.closed.trans hq.closed⟩
  rw [hp,hsame.root,hq.root]
  exact hs.extend hg

section Transaction
variable {commit : Cmd Unit} {body : Cmd ℕ} (hq : Quiet s s₁)
  (he : x s = (inTx commit body >>= publish) s₁)
include hq he

lemma undone_of_begin (hs : Shows s.pages s.rootPageID o₀) (hb : s.faults .begin (s.seen .begin) = true) :
    Undone x s o₀ :=
  undone_of_inTx hs hq he (inTx_begin_fault ((hq.fault (by decide) (by decide)).trans hb)) ⟨rfl,rfl,
    rfl,rfl⟩ rfl

variable (hb : s.faults .begin (s.seen .begin) = false)
  (hab : ∃ m us, Ends body (begun s₁) none ((begun s₁).after .write m (buffered (begun s₁).pages us)))
include hb hab

lemma undone_of_rollback (hs : Shows s.pages s.rootPageID o₀)
    (hr : s.faults .rollback (s.seen .rollback) = false) : Undone x s o₀ := by
  obtain ⟨ids,hg⟩ := hq.grown
  obtain ⟨s₂,hrun,hsame,hp⟩ := inTx_rollback commit hg.sound.idle
    ((hq.fault (by decide) (by decide)).trans hb) hab ((hq.fault (by decide) (by decide)).trans hr)
  exact undone_of_inTx hs hq he hrun hsame hp

lemma leavesOpen_of_rollback (hr : s.faults .rollback (s.seen .rollback) = true) : LeavesOpen x s := by
  obtain ⟨ids,hg⟩ := hq.grown
  obtain ⟨s₂,⟨e,hrun⟩,-,hp⟩ := inTx_rollback_fault commit hg.sound.idle
    ((hq.fault (by decide) (by decide)).trans hb) hab ((hq.fault (by decide) (by decide)).trans hr)
  exact ⟨e,s₂,he.trans (Prog.bind_error hrun),hp⟩

end Transaction

theorem Prepared.begin_fault (h : Prepared x s s₁ n o) (hs : Shows s.pages s.rootPageID o₀)
    (hb : s.faults .begin (s.seen .begin) = true) : Undone x s o₀ := by
  obtain ⟨hq,commit,body,ws,r,-,-,-,-,he,-⟩ := h
  exact undone_of_begin hq he hs hb

theorem Prepared.rolls_back (h : Prepared x s s₁ n o) (hs : Shows s.pages s.rootPageID o₀)
    (hb : s.faults .begin (s.seen .begin) = false) (hw : ¬s.Clear .write n)
    (hr : s.faults .rollback (s.seen .rollback) = false) : Undone x s o₀ := by
  obtain ⟨hq,commit,body,ws,r,-,hx,hwr,rfl,he,-⟩ := h
  have hab := (hx (begun s₁) rfl hwr).2 fun hc =>
    hw ((hq.clear (by decide) (by decide) _).mp ((Store.clear_after_ne (by decide)).mp hc))
  exact undone_of_rollback hq he hb hab hs hr

theorem Prepared.rollback_fault (h : Prepared x s s₁ n o)
    (hb : s.faults .begin (s.seen .begin) = false) (hw : ¬s.Clear .write n)
    (hr : s.faults .rollback (s.seen .rollback) = true) : LeavesOpen x s := by
  obtain ⟨hq,commit,body,ws,r,-,hx,hwr,rfl,he,-⟩ := h
  have hab := (hx (begun s₁) rfl hwr).2 fun hc =>
    hw ((hq.clear (by decide) (by decide) _).mp ((Store.clear_after_ne (by decide)).mp hc))
  exact leavesOpen_of_rollback hq he hb hab hr

theorem Prepared.commit_fault (h : Prepared x s s₁ n o)
    (hb : s.faults .begin (s.seen .begin) = false) (hw : s.Clear .write n)
    (hc : s.faults .commit (s.seen .commit) = true) : LeavesOpen x s := by
  obtain ⟨hq,commit,body,ws,r,hcm,hx,hwr,rfl,he,-⟩ := h
  obtain ⟨ids,hg⟩ := hq.grown
  obtain ⟨s₂,⟨e,hrun⟩,-,hp⟩ :=
    inTx_commit_fault hg.sound.idle ((hq.fault (by decide) (by decide)).trans hb) hcm hx hwr
    ((hq.clear (by decide) (by decide) _).mpr hw)
    ((hq.fault (by decide) (by decide)).trans hc)
  exact ⟨e,s₂,he.trans (Prog.bind_error hrun),hp⟩

end Outcome
end Plomvix.KV
