import Plomvix.Lib.Prog
import Plomvix.KV.Leaks
import Plomvix.KV.Check
import Plomvix.KV.OrderedMap

/-! A value that `Set` takes is read back. The bytes of a long value go through `encodeLeafNode`
behind the address of their overflow pages, and these eight bytes count against the limit there. -/
namespace Plomvix.KV
open Lib Pager BPlus

/-- The program changes no page. -/
structure Reads {α : Type} (x : Cmd α) : Prop where
  ends : ∀ s o, Good s o → Prog.Ends x s (fun _ s' => Good s' o) fun _ s' => Good s' o

section Reads
variable {α β : Type}

lemma Good.tick {s : Store} {o : Root} (hg : Good s o) (c : PagerCall) (n : ℕ) :
    Good (s.tick c n) o := ⟨hg.healthy,hg.opened,hg.shows⟩

lemma reads_pure (a : α) : Reads (pure a : Cmd α) := ⟨fun _ _ hg => .pure hg⟩

lemma reads_fail (e : Err) : Reads (fail e : Cmd α) := ⟨fun _ _ hg => .stop hg⟩

lemma reads_codec (x : Except Err α) : Reads (codec x) := by
  cases x with
  | error e => exact ⟨fun _ _ hg => .of_error rfl hg⟩
  | ok a => exact ⟨fun _ _ hg => .of_ok rfl hg⟩

lemma Reads.bind {x : Cmd α} {f : α → Cmd β} (hx : Reads x) (hf : ∀ a, Reads (f a)) : Reads (x >>= f) :=
  ⟨fun s o hg => (hx.ends s o hg).bind fun a s' hg' => (hf a).ends s' o hg'⟩

lemma Reads.wrap {x : Cmd α} (hx : Reads x) (text : String) : Reads (wrap text x) := by
  refine ⟨fun s o hg => (hx.ends s o hg).handle fun e s' hg' => ?_⟩
  cases e with
  | err e => exact .stop hg'
  | panic => exact .stop hg'
  | diverge => exact .stop hg'

lemma reads_get : Reads (Prog.get : Cmd Store) := ⟨fun _ _ hg => .of_ok rfl hg⟩

lemma reads_call {c : PagerCall} {op : PageStore → Except Pager.Err α × PageStore}
    (hop : ∀ p, (op p).2 = p) : Reads (call c op) := by
  refine ⟨fun s o hg => ?_⟩
  have hrun : call c op s = ((op s.pages).1.mapError fun e => .err (.pager e),s.tick c 1) := by
    rw [call,hg.healthy c,if_neg Bool.false_ne_true]
    simp only [hop]
    rfl
  cases hres : (op s.pages).1 with
  | error e =>
    rw [hres] at hrun
    exact .of_error hrun (hg.tick c 1)
  | ok a =>
    rw [hres] at hrun
    exact .of_ok hrun (hg.tick c 1)

lemma reads_readPage (id : ℕ) : Reads (readPage id) := by
  refine reads_call fun p => ?_
  rw [PageStore.readPage]
  split_ifs <;> rfl

lemma reads_foldlM {f : β → α → Cmd β} (hf : ∀ b a, Reads (f b a)) (l : List α) (b : β) :
    Reads (l.foldlM f b) := by
  induction l generalizing b with
  | nil => exact reads_pure b
  | cons a l ih =>
    rw [List.foldlM_cons]
    exact (hf b a).bind ih

lemma reads_checkChain (totalLen pageCount n pageID bufLen : ℕ) (visited : List ℕ) :
    Reads (checkChain totalLen pageCount n pageID bufLen visited) := by
  induction n generalizing pageID bufLen visited with
  | zero =>
    rw [checkChain]
    split_ifs
    · exact reads_fail _
    · exact reads_pure _
    · exact reads_fail _
  | succ n ih =>
    rw [checkChain]
    split_ifs
    · exact reads_fail _
    · exact reads_pure _
    · exact reads_fail _
    · exact reads_fail _
    · exact ((reads_readPage _).wrap _).bind fun body => (reads_codec _).bind fun r => ih ..

lemma reads_checkSorted (text : ℕ → String) (keys : List Key) : Reads (checkSorted text keys) := by
  rw [checkSorted]
  split
  · exact reads_fail _
  · exact reads_pure _

lemma reads_checkLeaf (pageCount pageID : ℕ) (prevKey : Option Key) (visited : List ℕ) (body : Bytes) :
    Reads (checkLeaf pageCount pageID prevKey visited body) := by
  refine (reads_codec _).bind fun r => (reads_checkSorted ..).bind fun _ => Reads.bind ?_ fun _ =>
    Reads.bind (reads_foldlM (fun vs ref => ?_) _ _) fun vs => ?_
  · rw [checkBound.eq_def]
    split
    · split_ifs
      · exact reads_fail _
      · exact reads_pure _
    · exact reads_pure _
  · rw [checkOverflowChain]
    split_ifs
    · exact reads_checkChain ..
    · exact reads_pure _
  · split_ifs
    · exact reads_fail _
    · exact reads_pure _

lemma reads_checkNode (pageCount n pageID : ℕ) (prevKey : Option Key) (visited : List ℕ) :
    Reads (checkNode pageCount n pageID prevKey visited) := by
  induction n generalizing pageID prevKey visited with
  | zero => exact ⟨fun _ _ hg => .stop hg⟩
  | succ n ih =>
    rw [checkNode]
    split_ifs
    · exact reads_fail _
    · exact reads_fail _
    · refine ((reads_readPage _).wrap _).bind fun body => ?_
      split_ifs
      · exact reads_checkLeaf ..
      · exact (reads_codec _).bind fun r => (reads_checkSorted ..).bind fun _ =>
          reads_foldlM (fun vs child => ih ..) _ _
      · exact reads_fail _

lemma reads_check : Reads check := by
  have hopen : Reads checkOpen := by
    refine reads_get.bind fun s => ?_
    split_ifs
    · exact reads_fail _
    · exact reads_fail _
    · exact reads_pure _
  refine hopen.bind fun _ => reads_get.bind fun s => ?_
  split_ifs
  · exact reads_pure _
  · exact ((reads_call fun _ => rfl).wrap _).bind fun pc =>
      (reads_get.bind fun s => reads_pure _).bind fun n =>
      (reads_checkNode ..).bind fun _ => reads_pure _

end Reads

/-- Stores that calls without faults lead to, with values of any size. `Compact` is called where it
keeps the answers. -/
inductive Served : Store → Prop
  | opened {s : Store} (h : openStore (newBtreeStore .empty noFaults) = (.ok (),s)) : Served s
  | act {s : Store} (h : Served s) (hr : s.Roomy) (a : Act) : Served (a.step s).2
  | check {s : Store} (h : Served s) : Served (check s).2
  | compact {s : Store} (h : Served s) (hc : s.Compactable) (hok : (compact s).1 = .ok ()) :
      Served (compact s).2

section Served
variable {s s' : Store} {o : Root}

lemma bind_state {α β : Type} {x : Cmd α} {y : α → Cmd β} (hy : ∀ a s, (y a s).2 = s) :
    ((x >>= y) s).2 = (x s).2 := by
  rcases hx : x s with ⟨e | a,s'⟩
  · rw [Prog.bind_error hx]
  · rw [Prog.bind_ok hx,hy]

lemma Good.act (hg : Good s o) (hr : s.Roomy) (a : Act) : ∃ o', Good (a.step s).2 o' := by
  cases a with
  | set k v =>
    rw [show ((Act.set k v).step s).2 = ((Op.set k v).run s).2 from bind_state fun _ _ => rfl]
    exact hg.step hr (.set k v)
  | delete k =>
    rw [show ((Act.delete k).step s).2 = ((Op.delete k).run s).2 from bind_state fun _ _ => rfl]
    exact hg.step hr (.delete k)
  | get k =>
    obtain ⟨n,hrun⟩ := hg.get_run k
    rw [Act.step,hrun]
    exact ⟨o,hg.tick .read n⟩
  | scan first last =>
    obtain ⟨n,hrun⟩ := scan_ok first last hg.healthy hg.opened hg.shows
    rw [show ((Act.scan first last).step s).2 = (KV.scan first last s).2 from bind_state fun _ _ =>
      rfl,hrun]
    exact ⟨o,hg.tick .read n⟩
  | reopen =>
    obtain ⟨s',hrun,hg'⟩ := hg.reopen_run
    rw [Act.step,hrun]
    exact ⟨o,hg'⟩

theorem Served.good (h : Served s) : ∃ o, Good s o := by
  induction h with
  | opened h =>
    obtain ⟨s',hrun,hg,-⟩ := open_fresh
    cases h.symm.trans hrun
    exact ⟨none,hg⟩
  | act h hr a ih =>
    obtain ⟨o,hg⟩ := ih
    exact hg.act hr a
  | check h ih =>
    obtain ⟨o,hg⟩ := ih
    exact ⟨o,(reads_check.ends _ o hg).state⟩
  | compact h hc hok ih =>
    obtain ⟨o,hg⟩ := ih
    obtain ⟨o',hg',-⟩ := hg.compact_accounts hc (Prog.run_ok hok)
    exact ⟨o',hg'⟩

lemma Good.set_get (hg : Good s o) (hr : s.Roomy) {k : Key} {v : Bytes} (hk : k.length ≤ maxKeySize)
    (hv : v.length+8 ≤ maxValSizeEnterprise) :
    (set k v s).1 = .ok () ∧ (KV.get k (set k v s).2).1 = .ok v := by
  obtain ⟨s',o',e,hrun,hg',hval,hc,-⟩ := hg.set_ok hr hk hv
  rw [hrun,hg'.get,hc,hg.shows.lookup_withLeaf_self,Assoc.lookup_put,if_pos rfl,← hval]
  exact ⟨rfl,rfl⟩

end Served

/-- A value is taken and read back exactly if it is within the limit with the eight bytes before it. -/
theorem set_then_get_iff {s : Store} (h : Served s) (hr : s.Roomy) {k : Key}
    (hk : k.length ≤ maxKeySize) (v : Bytes) :
    ((set k v s).1 = .ok () ∧ (get k (set k v s).2).1 = .ok v) ↔ v.length+8 ≤ maxValSizeEnterprise := by
  obtain ⟨o,hg⟩ := h.good
  constructor
  · rintro ⟨hok,-⟩
    by_contra hlong
    obtain ⟨e,s',hrun,-⟩ := hg.set_error hr fun hfit => hlong hfit.2
    rw [hrun] at hok
    cases hok
  · exact hg.set_get hr hk

lemma served_fresh : Served freshStore := by
  obtain ⟨s,hrun,-⟩ := open_fresh
  rw [freshStore,hrun]
  exact .opened hrun

theorem set_then_get_long_value : (set [97] longValue freshStore).1 = .ok () ∧
      (get [97] (set [97] longValue freshStore).2).1 = .ok longValue := by
  refine (set_then_get_iff served_fresh roomy_fresh (by decide) longValue).mpr ?_
  rw [longValue_length]
  decide

/-- 16 MiB. -/
def largestValue : Bytes := List.replicate maxValSizeEnterprise 7

theorem largest_value_refused : Served freshStore ∧ freshStore.Roomy ∧
      largestValue.length ≤ maxValSizeEnterprise ∧ (set [97] largestValue freshStore).1≠.ok () := by
  have hlength : largestValue.length = maxValSizeEnterprise := List.length_replicate ..
  refine ⟨served_fresh,roomy_fresh,hlength.le,fun hok => ?_⟩
  obtain ⟨e,s',hrun,-⟩ :=
    freshStore_good.1.set_error roomy_fresh (k := [97]) (v := largestValue) fun hfit => by
    have := hfit.2
    omega
  rw [hrun] at hok
  cases hok

end Plomvix.KV
