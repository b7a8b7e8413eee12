import Plomvix.KV.Transact

/-! The page writes that make up a change of the tree: a rewritten leaf, the chunks of a
long value, the inner nodes of a split and the meta page. -/
namespace Plomvix.KV
open Lib Pager BPlus

def leafBytes (es : List (Key × Slot)) (next : ℕ) : Bytes :=
  (encodeLeafNode (es.map Prod.fst) (es.map (fun e => e.2.packed)) next).toOption.getD []

def innerBytes (n : BPlus.Inner Key ℕ) : Bytes := (encodeInternalNode n.kids n.keys).toOption.getD []

def overflowBytes (next : ℕ) (chunk : Bytes) : Bytes := (encodeOverflowPage next chunk).toOption.getD []

/-- Entries that fit into one leaf. -/
structure LeafEntries (es : List (Key × Slot)) : Prop where
  count : es.length ≤ maxLeafKeys
  sorted : Assoc.Sorted es
  key_size : ∀ e ∈ es, e.1.length ≤ maxKeySize

lemma toOption_getD {ε α : Type} {x : Except ε α} {a d : α} (h : x = .ok a) : x.toOption.getD d = a := by
  rw [h]
  rfl

lemma LeafEntries.fits {es : List (Key × Slot)} (h : LeafEntries es) :
    LeafFits (es.map Prod.fst) (es.map (fun e => e.2.packed)) where
  length_eq := by simp
  count := by simpa using h.count
  ascending := h.sorted
  key_size := by simpa using fun k s hm => h.key_size (k,s) hm
  storable := by
    intro v hv
    obtain ⟨e,-,rfl⟩ := List.mem_map.mp hv
    exact e.2.storable

theorem LeafEntries.encode {es : List (Key × Slot)} (h : LeafEntries es) {next : ℕ} (hn : next < 256^8) :
    encodeLeafNode (es.map Prod.fst) (es.map (fun e => e.2.packed)) next = .ok (leafBytes es next) ∧
      decodeLeafNodeRefs (leafBytes es next) =
        .ok (es.map Prod.fst,es.map (fun e => e.2.ref),next) := by
  obtain ⟨b,hb,hd⟩ := encodeLeafNode_decode h.fits hn
  have he : leafBytes es next = b := toOption_getD hb
  rw [he]
  refine ⟨hb,hd.trans ?_⟩
  simp only [List.map_map]
  rfl

theorem innerBytes_encode {n : BPlus.Inner Key ℕ} (h : InternalFits n.kids n.keys) :
    encodeInternalNode n.kids n.keys = .ok (innerBytes n) ∧
      decodeInternalNode (innerBytes n) = .ok (n.kids,n.keys) := by
  obtain ⟨b,hb,hd⟩ := encodeInternalNode_decode h
  have he : innerBytes n = b := toOption_getD hb
  rw [he]
  exact ⟨hb,hd⟩

theorem overflowBytes_encode {next : ℕ} {chunk : Bytes} (hn : next < 256^8)
    (hc : chunk.length ≤ overflowChunkSize) :
    encodeOverflowPage next chunk = .ok (overflowBytes next chunk) ∧
      (overflowBytes next chunk).length = dataPageBodySize ∧
      decodeOverflowPage (overflowBytes next chunk) = .ok (next,padTo overflowChunkSize chunk) := by
  obtain ⟨b,hb,hl,hd⟩ := encodeOverflowPage_decode hn hc
  have he : overflowBytes next chunk = b := toOption_getD hb
  rw [he]
  exact ⟨hb,hl,hd⟩

def chunkWrites : List ℕ → Bytes → List (ℕ × Bytes)
  | [],_ => []
  | id::ids,rest => (id,overflowBytes (ids.headD rootSentinel) (rest.take overflowChunkSize))::
      chunkWrites ids (rest.drop overflowChunkSize)

@[simp] lemma chunkWrites_ids (ids : List ℕ) (rest : Bytes) :
    (chunkWrites ids rest).map Prod.fst = ids := by
  induction ids generalizing rest with
  | nil => rfl
  | cons id ids ih => simp [chunkWrites,ih]

lemma headD_lt {ids : List ℕ} (h : ∀ id ∈ ids, id < 256^8) : ids.headD rootSentinel < 256^8 := by
  cases ids with
  | nil => decide
  | cons id ids => exact h id (by simp)

lemma take_chunk (rest : Bytes) : (rest.take overflowChunkSize).length ≤ overflowChunkSize := by
  simp

lemma chunkWrites_length {ids : List ℕ} {rest : Bytes} (h : ∀ id ∈ ids, id < 256^8) :
    ∀ w ∈ chunkWrites ids rest, w.2.length = dataPageBodySize := by
  induction ids generalizing rest with
  | nil => simp [chunkWrites]
  | cons id ids ih =>
    have ht : ∀ i ∈ ids, i < 256^8 := fun i hi => h i (by simp [hi])
    intro w hw
    cases List.mem_cons.mp hw with
    | inl he => rw [he]; exact (overflowBytes_encode (headD_lt ht) (take_chunk rest)).2.1
    | inr hm => exact ih ht w hm

lemma writes_chunks {ids : List ℕ} (h : ∀ id ∈ ids, id < 256^8) (rest : Bytes) :
    Writes (writeChunks ids rest) (chunkWrites ids rest) () := by
  induction ids generalizing rest with
  | nil => exact writes_pure ()
  | cons id ids ih =>
    have ht : ∀ i ∈ ids, i < 256^8 := fun i hi => h i (by simp [hi])
    have he := (overflowBytes_encode (headD_lt ht) (take_chunk rest)).1
    exact ((writes_codec he).wrap _).bind (((writes_page id _).wrap _).bind (ih ht _))

lemma chained_of_writes {f : ℕ → Bytes} {ids : List ℕ} {rest : Bytes} (h : ∀ id ∈ ids, id < 256^8)
    (hl : rest.length ≤ overflowChunkSize*ids.length)
    (hf : ∀ w ∈ chunkWrites ids rest, f w.1 = w.2) : Chained f ids rest := by
  induction ids generalizing rest with
  | nil =>
    have hr : rest = [] := by simpa using hl
    exact hr
  | cons id ids ih =>
    have ht : ∀ i ∈ ids, i < 256^8 := fun i hi => h i (by simp [hi])
    refine ⟨?_,ih ht ?_ fun w hw => hf w (List.mem_cons_of_mem _ hw)⟩
    · rw [hf (id,_) (List.mem_cons_self ..)]
      exact (overflowBytes_encode (headD_lt ht) (take_chunk rest)).2.2
    · rw [List.length_cons,Nat.mul_succ] at hl
      rw [List.length_drop]
      omega

section Parents
open Ctx

def parentWrites (path : List (Frame Key ℕ)) (l r : ℕ) (k : Key) (pool : List ℕ) : List (ℕ × Bytes) :=
  (climb maxInternalKeys path l k r pool).map (fun n => (n.id,innerBytes n))++
    ((newRoot maxInternalKeys path pool).map fun id => (metaPageID,encodeMetaPage id)).toList

lemma writes_insertIntoParent {h H : ℕ} (c : Ctx Key Slot h H) (child l r : ℕ) (k : Key)
    (pool : List ℕ) (hp : c.depth < pool.length)
    (hf : ∀ n ∈ climb maxInternalKeys c.path l k r pool, InternalFits n.kids n.keys) :
    Writes (insertIntoParent (pathEntries c child) l r k pool) (parentWrites c.path l r k pool)
      ((newRoot maxInternalKeys c.path pool).getD 0) := by
  induction c generalizing child l r k pool with
  | root =>
    obtain ⟨a,pool,rfl⟩ := List.exists_cons_of_length_pos (Nat.zero_lt_of_lt hp)
    have he := (innerBytes_encode (hf ⟨a,[k],[l,r],rfl⟩ (by simp [climb,path]))).1
    exact (writes_codec he).bind (((writes_page a _).wrap _).bind
      (((writes_page metaPageID _).wrap _).bind (writes_pure a)))
  | @step h H f up ih =>
    change Writes (insertIntoParent (entryOf (f.map (rootId h)) child::pathEntries up f.id) l r k pool) _ _
    simp only [parentWrites,path] at hf ⊢
    have hid : f.id = (f.map (rootId h)).id := rfl
    generalize f.map (rootId h) = g at hf hid ⊢
    rw [insertIntoParent,entryOf_width]
    by_cases hlt : g.width < maxInternalKeys
    · rw [climb_of_lt hlt] at hf ⊢
      have he := (innerBytes_encode (hf _ (List.mem_singleton_self _))).1
      rw [← entryOf_kids g child,← entryOf_keys g child] at he
      rw [newRoot_of_lt hlt,if_pos hlt]
      have hi : Writes (insertIntoInternal (entryOf g child) l r k)
        [(g.id,innerBytes (g.fillTwo l k r))] () :=
        (writes_codec he).bind (writes_page g.id _)
      exact hi.bind (writes_pure 0)
    · obtain ⟨a,pool,rfl⟩ := List.exists_cons_of_length_pos (Nat.zero_lt_of_lt hp)
      have hpos := g.fillTwo_pos l r k
      rw [climb_of_ge hlt] at hf ⊢
      have h1 := (innerBytes_encode (hf _ (List.mem_cons_self ..))).1
      have h2 := (innerBytes_encode (hf _ (List.mem_cons_of_mem _ (List.mem_cons_self ..)))).1
      have hup := ih f.id g.id a ((g.fillTwo l k r).middle hpos) pool (by simpa [depth] using hp)
        fun n hn => hf n (by simp [hn])
      have hmid : (g.fillTwo l k r).keys.getD ((g.fillTwo l k r).keys.length/2) [] =
          (g.fillTwo l k r).middle hpos := by
        simp [Inner.middle,Nat.div_lt_self hpos]
      have hidx : (entryOf g child).childIdx = g.keysL.length := rfl
      rw [newRoot_of_ge hlt,if_neg hlt]
      simp only [splitInternal,hidx,entryOf_kids g child l r k,entryOf_keys g child l r k,hmid]
      exact (writes_codec h1).bind (((writes_page g.id _).wrap _).bind
        ((writes_codec h2).bind (((writes_page a _).wrap _).bind hup)))

end Parents
end Plomvix.KV
