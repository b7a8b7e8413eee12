import Plomvix.Lib.BPlusEdit
import Plomvix.KV.Store

/-! How a B+ tree lies on pages. The slots of the tree hold values as the store means them;
`Holds` says that page bodies decode to the nodes of a tree, that the leaves are chained in
order and that long values stand on their overflow pages. -/
namespace Plomvix.KV
open Lib Pager BPlus

/-- A stored value: short ones in the slot, long ones behind a chain of overflow pages. -/
inductive Slot
  | inline (v : Bytes) (short : v.length ≤ maxValSize)
  | overflow (v : Bytes) (ids : List ℕ) (long : maxValSize < v.length)
      (size : v.length+8 ≤ maxValSizeEnterprise) (count : ids.length = numOverflow v)

namespace Slot

def value : Slot → Bytes
  | inline v _ => v
  | overflow v _ _ _ _ => v

/-- The overflow pages of a value. -/
def pages : Slot → List ℕ
  | inline _ _ => []
  | overflow _ ids _ _ _ => ids

def packed : Slot → Bytes
  | inline v _ => v
  | overflow v ids _ _ _ => beBytes 8 (ids.headD 0)++v

lemma flat_short (v : Bytes) (ids : List ℕ) :
    (beBytes 8 (ids.headD 0)++v.take 504).length ≤ maxValSize := by
  simp only [List.length_append,beBytes_length,List.length_take]
  simp only [maxValSize]
  omega

def flat : Slot → Slot
  | inline v h => inline v h
  | overflow v ids _ _ _ => inline (beBytes 8 (ids.headD 0)++v.take 504) (flat_short v ids)

@[simp] lemma pages_flat (s : Slot) : s.flat.pages = [] := by cases s <;> rfl

lemma flat_eq_self {s : Slot} (h : s.value.length ≤ maxValSize) : s.flat = s := by
  cases s with
  | inline v _ => rfl
  | overflow v ids hl _ _ => exact absurd h (by simpa [value] using hl)

lemma flat_value_ne {s : Slot} (h : maxValSize < s.value.length) : s.flat.value≠s.value := by
  cases s with
  | inline v hs => exact absurd h (by simpa [value] using hs)
  | overflow v ids hl _ _ =>
    intro he
    have hlen := congrArg List.length he
    simp only [flat,value,List.length_append,beBytes_length,List.length_take] at hlen
    simp only [maxValSize] at hl
    omega

lemma storable (s : Slot) : Storable s.packed := by
  cases s with
  | inline v h =>
    refine ⟨h.trans ?_,.inl h⟩
    decide
  | overflow v ids hl hs _ =>
    simp only [Storable,packed,List.length_append,beBytes_length]
    exact ⟨by omega,.inr (by omega)⟩

def ref (s : Slot) : LeafValueRef := refOf s.packed

lemma ref_inline (v : Bytes) (h : v.length ≤ maxValSize) :
    (inline v h).ref = ⟨v.length,v,0,false⟩ := if_neg (not_lt.mpr h)

lemma ref_overflow (v : Bytes) (ids : List ℕ) (hl : maxValSize < v.length)
    (hs : v.length+8 ≤ maxValSizeEnterprise) (hc : ids.length = numOverflow v) :
    (overflow v ids hl hs hc).ref = ⟨v.length,v.take 504,ids.headD 0%256^8,true⟩ := by
  have h8 : (beBytes 8 (ids.headD 0)).length = 8 := beBytes_length 8 _
  have hlen : (beBytes 8 (ids.headD 0)++v).length > maxValSize := by
    rw [List.length_append,h8]
    omega
  rw [ref,packed,refOf,if_pos hlen,List.take_left' h8,List.drop_left' h8,beNat_beBytes_mod,
    List.length_append,h8,Nat.add_sub_cancel_left]

lemma ref_value (s : Slot) : s.ref.value = s.flat.packed := by
  cases s with
  | inline v h => rw [ref_inline]; rfl
  | overflow v ids hl hs hc =>
    have hx : (beBytes 8 (ids.headD 0)++v.take 504).length = 512 := by
      simp only [maxValSize] at hl
      simp only [List.length_append,beBytes_length,List.length_take]
      omega
    rw [ref_overflow,LeafValueRef.value,if_pos rfl,beBytes_mod,padTo_of_length hx]
    rfl

end Slot

/-- The rest of a long value, one chunk to a page, each page pointing to the next. -/
def Chained (body : ℕ → Bytes) : List ℕ → Bytes → Prop
  | [],rest => rest = []
  | id::ids,rest =>
    decodeOverflowPage (body id) =
        .ok (ids.headD rootSentinel,padTo overflowChunkSize (rest.take overflowChunkSize)) ∧
      Chained body ids (rest.drop overflowChunkSize)

def Slot.Stored (body : ℕ → Bytes) (s : Slot) : Prop :=
  match s with
  | .inline _ _ => True
  | .overflow v ids _ _ _ => Chained body ids (v.drop 504)

/-- Leaves that stand on their pages, each pointing to the next one, the last to `next`. -/
def LeafRun (body : ℕ → Bytes) (next : ℕ) : List (Leaf Key Slot) → Prop
  | [] => True
  | l::ls =>
    decodeLeafNodeRefs (body l.id) =
        .ok (l.entries.map Prod.fst,l.entries.map (fun e => e.2.ref),(ls.map Leaf.id).headD next) ∧
      LeafRun body next ls

def overflowPages (es : List (Key × Slot)) : List ℕ := es.flatMap (fun e => e.2.pages)

def pagesOf {H : ℕ} (t : Tree Key Slot H) : List ℕ := ids H t++overflowPages (entries H t)

/-- The page bodies spell out the tree. -/
structure Holds (body : ℕ → Bytes) {H : ℕ} (t : Tree Key Slot H) : Prop where
  inner : ∀ n ∈ inners H t, decodeInternalNode (body n.id) = .ok (n.kids,n.keys)
  leaf : LeafRun body rootSentinel (leaves H t)
  slot : ∀ e ∈ entries H t, e.2.Stored body

lemma Chained.frame {body body' : ℕ → Bytes} {ids : List ℕ} {rest : Bytes}
    (h : Chained body ids rest) (he : ∀ id ∈ ids, body' id = body id) : Chained body' ids rest := by
  induction ids generalizing rest with
  | nil => exact h
  | cons id ids ih =>
    refine ⟨?_,ih h.2 (fun i hi => he i (by simp [hi]))⟩
    rw [he id (by simp)]
    exact h.1

lemma Slot.Stored.frame {body body' : ℕ → Bytes} {s : Slot} (h : s.Stored body)
    (he : ∀ id ∈ s.pages, body' id = body id) : s.Stored body' := by
  cases s with
  | inline v hv => trivial
  | overflow v ids hl hs hc => exact Chained.frame h he

lemma LeafRun.frame {body body' : ℕ → Bytes} {next : ℕ} {ls : List (Leaf Key Slot)}
    (h : LeafRun body next ls) (he : ∀ l ∈ ls, body' l.id = body l.id) : LeafRun body' next ls := by
  induction ls with
  | nil => trivial
  | cons l ls ih =>
    refine ⟨?_,ih h.2 (fun x hx => he x (by simp [hx]))⟩
    rw [he l (by simp)]
    exact h.1

lemma leafRun_append {body : ℕ → Bytes} {next : ℕ} (as bs : List (Leaf Key Slot)) :
    LeafRun body next (as++bs) ↔
      LeafRun body ((bs.map Leaf.id).headD next) as ∧ LeafRun body next bs := by
  induction as with
  | nil => simp [LeafRun]
  | cons a as ih =>
    have hh : ((as++bs).map Leaf.id).headD next =
        (as.map Leaf.id).headD ((bs.map Leaf.id).headD next) := by
      cases as <;> rfl
    rw [List.cons_append,LeafRun,LeafRun,ih,hh,and_assoc]

lemma LeafRun.mem {body : ℕ → Bytes} {next : ℕ} {ls : List (Leaf Key Slot)}
    (h : LeafRun body next ls) (l : Leaf Key Slot) (hl : l ∈ ls) :
    ∃ nx, decodeLeafNodeRefs (body l.id) =
      .ok (l.entries.map Prod.fst,l.entries.map (fun e => e.2.ref),nx) := by
  obtain ⟨as,bs,rfl⟩ := List.append_of_mem hl
  exact ⟨_,((leafRun_append as (l::bs)).mp h).2.1⟩

theorem Holds.frame {body body' : ℕ → Bytes} {H : ℕ} {t : Tree Key Slot H} (h : Holds body t)
    (he : ∀ id ∈ pagesOf t, body' id = body id) : Holds body' t where
  inner n hn := by
    rw [he n.id (List.mem_append_left _ (List.mem_append_right _ (List.mem_map_of_mem hn)))]
    exact h.inner n hn
  leaf := h.leaf.frame fun l hl =>
    he l.id (List.mem_append_left _ (List.mem_append_left _ (List.mem_map_of_mem hl)))
  slot e hm := (h.slot e hm).frame fun id hid =>
    he id (List.mem_append_right _ (List.mem_flatMap.mpr ⟨e,hm,hid⟩))

end Plomvix.KV
