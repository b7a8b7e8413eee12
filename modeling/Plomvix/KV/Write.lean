import Plomvix.KV.Update

/-! `Set` and `Delete` on a stored tree, brought to the form of one prepared transaction. -/
namespace Plomvix.KV
open Lib Pager BPlus

def chainBody (overflowIDs : List ℕ) (packedVal : Bytes) : Cmd Unit :=
  if overflowIDs.length > 0 then dropPageID packedVal >>= writeOverflowChain overflowIDs else pure ()

section Forms

lemma orRollback_pure {α : Type} (a : α) : orRollback (pure a : Cmd α) = pure a := by
  funext s
  exact orRollback_ok rfl

lemma writeOverflowChainFull_eq (ids : List ℕ) (b : Bytes) :
    writeOverflowChainFull ids b = orRollback (chainBody ids b) := by
  unfold writeOverflowChainFull chainBody
  split
  · unfold dropPageID
    split
    · funext s
      rw [Prog.bind_error (Prog.stop_run ..),
        orRollback_stop (Prog.bind_error (Prog.stop_run ..)) (by simp)]
    · simp only [pure_bind]
  · exact (orRollback_pure ()).symm

lemma bind_orRollback {α β γ : Type} (x : Cmd α) (f : α → Cmd β) (g : β → Cmd γ) :
    (orRollback x >>= fun a => orRollback (f a) >>= g) = orRollback (x >>= f) >>= g := by
  rw [← orRollback_bind,bind_assoc]

def leafBody (ids : List ℕ) (b : Bytes) (pageID : ℕ) (body : Bytes) : Cmd ℕ := do
  chainBody ids b
  wrap "kv: write leaf" (writePage pageID body)
  pure 0

lemma inTx_then {α : Type} (commit : Cmd Unit) (x : Cmd Unit) (a : α) (f : α → Cmd Unit) :
    (inTx commit (x >>= fun _ => pure a) >>= f) =
      (do wrap "kv: begin tx" beginTx; orRollback x; commit; f a) := by
  unfold inTx
  simp only [bind_assoc,pure_bind]
  rw [← orRollback_bind]
  simp only [orRollback_pure,bind_assoc,pure_bind]

lemma inTx_zero (commit : Cmd Unit) (x : Cmd Unit) :
    (inTx commit (x >>= fun _ => pure 0) >>= publish) =
      (do wrap "kv: begin tx" beginTx; orRollback x; commit) := by
  have hp : publish 0 = pure () := rfl
  rw [inTx_then,hp,bind_pure_unit]

lemma updateLeaf_eq (pageID pos nextLeaf : ℕ) (keys : List Key) (vals : List Bytes) (b : Bytes)
    (ids : List ℕ) :
    updateLeaf pageID keys vals pos b ids nextLeaf = (do
      let body ← codec (encodeLeafNode keys (vals.set pos b) nextLeaf)
      inTx commitTx (leafBody ids b pageID body) >>= publish) := by
  unfold updateLeaf
  simp only [writeOverflowChainFull_eq,bind_orRollback,← inTx_zero,leafBody,bind_assoc]

lemma insertIntoLeaf_eq {pageID nextLeaf : ℕ} {keys : List Key} {vals : List Bytes} {k : Key} {b : Bytes}
    {ids : List ℕ} {newKeys : List Key} {newVals : List Bytes}
    (hk : keys.take (keys.takeWhile (· < k)).length++k::keys.drop (keys.takeWhile (· < k)).length =
      newKeys)
    (hv : vals.take (keys.takeWhile (· < k)).length++b::vals.drop (keys.takeWhile (· < k)).length =
      newVals) :
    insertIntoLeaf pageID keys vals k b ids nextLeaf = (do
      let body ← codec (encodeLeafNode newKeys newVals nextLeaf)
      inTx commitTx (leafBody ids b pageID body) >>= publish) := by
  unfold insertIntoLeaf
  simp only [hk,hv]
  simp only [writeOverflowChainFull_eq,bind_orRollback,← inTx_zero,leafBody,bind_assoc]

def splitBody (ids : List ℕ) (b : Bytes) (leafID newLeafID : ℕ) (left right : Except Err Bytes)
    (path : List PathEntry) (sepKey : Key) (pool : List ℕ) : Cmd ℕ := do
  chainBody ids b
  let leftBody ← codec left
  wrap "kv: write left leaf" (writePage leafID leftBody)
  let rightBody ← codec right
  wrap "kv: write right leaf" (writePage newLeafID rightBody)
  insertIntoParent path leafID newLeafID sepKey pool

lemma splitLeaf_eq {leafID nextLeaf : ℕ} {path : List PathEntry} {keys : List Key} {vals : List Bytes}
    {k : Key} {b : Bytes} {ids : List ℕ} {allKeys : List Key} {allVals : List Bytes}
    (hk : keys.take (keys.takeWhile (fun x => ¬k < x)).length++
      k::keys.drop (keys.takeWhile (fun x => ¬k < x)).length = allKeys)
    (hv : vals.take (keys.takeWhile (fun x => ¬k < x)).length++
      b::vals.drop (keys.takeWhile (fun x => ¬k < x)).length = allVals) :
    splitLeaf leafID path keys vals k b ids nextLeaf = (do
      let newLeafID ← wrap "kv: allocate new leaf" allocatePage
      let pool ← allocMany "kv: pre-allocate for internal split" (path.length+1)
      inTx (wrap "kv: commit split" commitTx) (splitBody ids b leafID newLeafID
        (encodeLeafNode (allKeys.take (allKeys.length/2)) (allVals.take (allKeys.length/2)) newLeafID)
        (encodeLeafNode (allKeys.drop (allKeys.length/2)) (allVals.drop (allKeys.length/2)) nextLeaf)
        path ((allKeys.drop (allKeys.length/2)).headD []) pool) >>= publish) := by
  unfold splitLeaf
  simp only [hk,hv]
  simp only [writeOverflowChainFull_eq,bind_orRollback,inTx,splitBody,bind_assoc,pure_bind]
  rfl

/-- The body that stores the first key: the chain, the leaf, the meta page. -/
def firstBody (ids : List ℕ) (v : Bytes) (leafID : ℕ) (leaf : Except Err Bytes) : Cmd ℕ := do
  (if ids.length > 0 then writeOverflowChain ids v else pure ())
  let leafBody ← codec leaf
  wrap "kv: write leaf" (writePage leafID leafBody)
  wrap "kv: write meta" (writePage metaPageID (encodeMetaPage leafID))
  pure leafID

lemma firstBody_eq (ids : List ℕ) (v : Bytes) (leafID : ℕ) (leaf : Except Err Bytes) :
    firstBody ids v leafID leaf = ((do
      (if ids.length > 0 then writeOverflowChain ids v else pure ())
      let leafBody ← codec leaf
      wrap "kv: write leaf" (writePage leafID leafBody)
      wrap "kv: write meta" (writePage metaPageID (encodeMetaPage leafID))) >>= fun _ => pure leafID) := by
  simp only [firstBody,bind_assoc]

def pack (v : Bytes) : Cmd (List ℕ × Bytes) :=
  if v.length > maxValSize then prepareOverflow v else pure ([],v)

lemma setInEmpty_eq (k : Key) (v : Bytes) :
    setInEmpty k v = (do
      let r ← pack v
      let leafID ← wrap "kv: allocate leaf" allocatePage
      inTx (wrap "kv: commit" commitTx)
        (firstBody r.1 v leafID (encodeLeafNode [k] [r.2] rootSentinel)) >>= setRoot) := by
  have hcond (c : Prop) [Decidable c] (x f : Cmd Unit) :
      (if c then orRollback x >>= fun _ => f else f) =
        orRollback (if c then x else pure ()) >>= fun _ => f := by
    split
    · rfl
    · rw [orRollback_pure,pure_bind]
  unfold setInEmpty pack
  simp only [firstBody_eq,inTx_then]
  simp only [hcond,pure_bind]
  simp only [bind_orRollback]
  split
  · rfl
  · rfl

end Forms

section Leaf
variable {k : Key} {kvs : List Entry}

/-- What `setInTree` does at the leaf its descent ends in. -/
def storeInLeaf (path : List PathEntry) (pageID : ℕ) (keys : List Key) (vals : List Bytes) (nextLeaf : ℕ)
    (k : Key) (overflowIDs : List ℕ) (packedVal : Bytes) : Cmd Unit :=
  match keys.findIdx? (· = k) with
  | some i => updateLeaf pageID keys vals i packedVal overflowIDs nextLeaf
  | none =>
    if keys.length < maxLeafKeys then insertIntoLeaf pageID keys vals k packedVal overflowIDs nextLeaf
    else splitLeaf pageID path keys vals k packedVal overflowIDs nextLeaf

lemma setInTree_eq (k : Key) (v : Bytes) :
    setInTree k v = (do
      let r ← pack v
      let s ← Prog.get
      let n ← fuel
      let (path,pageID,keys,vals,nextLeaf) ← findLeaf n s.rootPageID k
      storeInLeaf path pageID keys vals nextLeaf k r.1 r.2) := by
  unfold setInTree pack
  split <;> rfl

lemma insert_at {b : Bytes} {a c : List Entry} (ha : ∀ e ∈ a, e.1 < k) (hc : ∀ e ∈ c, k < e.1) {n : ℕ}
    (hn : n = a.length) :
    ((a++c).map Prod.fst).take n++k::((a++c).map Prod.fst).drop n =
        (Assoc.put k b (a++c)).map Prod.fst ∧
      ((a++c).map Prod.snd).take n++b::((a++c).map Prod.snd).drop n =
        (Assoc.put k b (a++c)).map Prod.snd := by
  rw [Assoc.put_new ha hc,hn]
  simp

lemma storeInLeaf_edit (ids : List ℕ) (b : Bytes) (path : List PathEntry) (pageID nextLeaf : ℕ)
    (hs : Assoc.Sorted kvs)
    (hfit : (∃ e ∈ kvs, e.1 = k) ∨ kvs.length < maxLeafKeys) :
    storeInLeaf path pageID (kvs.map Prod.fst) (kvs.map Prod.snd) nextLeaf k ids b = (do
      let body ← codec (encodeLeafNode ((Assoc.put k b kvs).map Prod.fst)
        ((Assoc.put k b kvs).map Prod.snd) nextLeaf)
      inTx commitTx (leafBody ids b pageID body) >>= publish) := by
  have hp (x : Key) : decide (x = k) = true ↔ x = k := decide_eq_true_iff
  obtain ⟨a,c,ha,hc,rfl | ⟨w,rfl⟩⟩ := Assoc.split_at k hs
  · have hne : ∀ e ∈ a++c, e.1≠k := fun e he =>
      (List.mem_append.mp he).elim (fun h => (ha e h).ne) fun h => (hc e h).ne'
    have hlt : ((a++c).map Prod.fst).length < maxLeafKeys := by
      obtain ⟨e,he,hk⟩ | h := hfit
      · exact absurd hk (hne e he)
      · simpa using h
    rw [storeInLeaf,Assoc.findIdx?_keys_none hp hne]
    simp only [if_pos hlt]
    obtain ⟨h1,h2⟩ := insert_at (b := b) ha hc (Assoc.takeWhile_keys (p := fun x => decide (x < k))
      (fun e he => decide_eq_true (ha e he)) fun e he => decide_eq_false (hc e he).le.not_gt)
    exact insertIntoLeaf_eq h1 h2
  · rw [storeInLeaf,Assoc.findIdx?_keys_here hp fun e he => (ha e he).ne]
    simp only [updateLeaf_eq,Assoc.put_here ha]
    simp

lemma storeInLeaf_split (ids : List ℕ) {b : Bytes} (path : List PathEntry) (pageID nextLeaf : ℕ)
    (hs : Assoc.Sorted kvs)
    (hne : ∀ e ∈ kvs, e.1≠k) (hfull : maxLeafKeys ≤ kvs.length) {left right : List Entry}
    (hl : (Assoc.put k b kvs).take ((Assoc.put k b kvs).length/2) = left)
    (hr : (Assoc.put k b kvs).drop ((Assoc.put k b kvs).length/2) = right) :
    storeInLeaf path pageID (kvs.map Prod.fst) (kvs.map Prod.snd) nextLeaf k ids b = (do
      let newLeafID ← wrap "kv: allocate new leaf" allocatePage
      let pool ← allocMany "kv: pre-allocate for internal split" (path.length+1)
      inTx (wrap "kv: commit split" commitTx) (splitBody ids b pageID newLeafID
        (encodeLeafNode (left.map Prod.fst) (left.map Prod.snd) newLeafID)
        (encodeLeafNode (right.map Prod.fst) (right.map Prod.snd) nextLeaf)
        path ((right.map Prod.fst).headD []) pool) >>= publish) := by
  have hp (x : Key) : decide (x = k) = true ↔ x = k := decide_eq_true_iff
  obtain ⟨a,c,ha,hc,rfl | ⟨w,rfl⟩⟩ := Assoc.split_at k hs
  · rw [storeInLeaf,Assoc.findIdx?_keys_none hp hne]
    simp only [List.length_map,if_neg (not_lt.mpr hfull)]
    obtain ⟨h1,h2⟩ := insert_at (b := b) ha hc (Assoc.takeWhile_keys (p := fun x => decide (¬k < x))
      (fun e he => decide_eq_true (ha e he).le.not_gt) fun e he =>
        decide_eq_false (not_not.mpr (hc e he)))
    rw [splitLeaf_eq h1 h2,← hl,← hr]
    simp only [List.map_take,List.map_drop,List.length_map]
  · exact absurd rfl (hne (k,w) (by simp))

lemma codec_bind {f : List Key × List Bytes × ℕ → Cmd Unit} {x : List Key × List Bytes × ℕ} :
    codec (.ok x) >>= f = f x := rfl

lemma deleteFromLeaf_miss (pageID : ℕ) {nextLeaf : ℕ} {body : Bytes}
    (hd : decodeLeafNode body = .ok (kvs.map Prod.fst,kvs.map Prod.snd,nextLeaf))
    (hne : ∀ e ∈ kvs, e.1≠k) : deleteFromLeaf k pageID body = pure () := by
  unfold deleteFromLeaf
  rw [hd]
  simp only [codec_bind]
  rw [Assoc.findIdx?_keys_none (fun x => decide_eq_true_iff) hne]

lemma deleteFromLeaf_hit (pageID : ℕ) {nextLeaf : ℕ} {body : Bytes} (hs : Assoc.Sorted kvs)
    (hd : decodeLeafNode body = .ok (kvs.map Prod.fst,kvs.map Prod.snd,nextLeaf))
    (hk : ∃ e ∈ kvs, e.1 = k) :
    deleteFromLeaf k pageID body = (do
      let body ← codec (encodeLeafNode ((Assoc.erase k kvs).map Prod.fst)
        ((Assoc.erase k kvs).map Prod.snd) nextLeaf)
      inTx commitTx (leafBody [] [] pageID body) >>= publish) := by
  obtain ⟨a,c,ha,hc,rfl | ⟨w,rfl⟩⟩ := Assoc.split_at k hs
  · obtain ⟨e,he,hk⟩ := hk
    exact absurd hk ((List.mem_append.mp he).elim (fun h => (ha e h).ne) fun h => (hc e h).ne')
  · unfold deleteFromLeaf
    rw [hd]
    simp only [codec_bind]
    have hchain : chainBody [] [] = pure () := rfl
    rw [Assoc.findIdx?_keys_here (fun x => decide_eq_true_iff) fun e he => (ha e he).ne,
      Assoc.erase_here (fun e he => (ha e he).ne) fun e he => (hc e he).ne']
    simp only [leafBody,hchain,pure_bind,inTx_zero]
    simp [List.eraseIdx_append_of_length_le]

end Leaf

section Slots

def chainWrites (ids : List ℕ) (v : Bytes) : List (ℕ × Bytes) :=
  chunkWrites ids (v.drop (min 504 v.length))

@[simp] lemma chainWrites_ids (ids : List ℕ) (v : Bytes) : (chainWrites ids v).map Prod.fst = ids :=
  chunkWrites_ids ..

@[simp] lemma chainWrites_length (ids : List ℕ) (v : Bytes) : (chainWrites ids v).length = ids.length := by
  rw [← List.length_map (f := Prod.fst),chainWrites_ids]

lemma writes_chain {ids : List ℕ} (h : ∀ id ∈ ids, id < 256^8) (hpos : ids.length > 0) (a : ℕ)
    (v : Bytes) :
    Writes (chainBody ids (beBytes 8 a++v)) (chainWrites ids v) () := by
  have h8 : (beBytes 8 a).length = 8 := beBytes_length 8 a
  have hdrop : dropPageID (beBytes 8 a++v) = pure v := by
    rw [dropPageID,if_neg (by simp),List.drop_left' h8]
  rw [chainBody,if_pos hpos,hdrop,pure_bind]
  exact writes_chunks h _

def Slot.writes (e : Slot) : List (ℕ × Bytes) := chainWrites e.pages e.value

lemma Slot.writes_chain (e : Slot) (h : ∀ id ∈ e.pages, id < 256^8) :
    Writes (chainBody e.pages e.packed) e.writes () := by
  cases e with
  | inline v hv => exact writes_pure ()
  | overflow v ids hl hs hc => exact KV.writes_chain h (hc ▸ numOverflow_pos hl) _ v

lemma Slot.stored_of_writes {f : ℕ → Bytes} (e : Slot) (h : ∀ id ∈ e.pages, id < 256^8)
    (hf : ∀ w ∈ e.writes, f w.1 = w.2) : e.Stored f := by
  cases e with
  | inline v hv => trivial
  | overflow v ids hl hs hc =>
    have hmin : min 504 v.length = 504 := by
      simp only [maxValSize] at hl
      omega
    rw [Slot.writes,chainWrites] at hf
    simp only [Slot.value,hmin] at hf
    refine chained_of_writes h ?_ hf
    rw [hc,List.length_drop,numOverflow]
    simp only [overflowChunkSize]
    omega

def flatten (es : List (Key × Slot)) : List (Key × Slot) := es.map fun e => (e.1,e.2.flat)

@[simp] lemma flatten_keys (es : List (Key × Slot)) : (flatten es).map Prod.fst = es.map Prod.fst := by
  simp [flatten]

@[simp] lemma flatten_length (es : List (Key × Slot)) : (flatten es).length = es.length := by
  simp [flatten]

@[simp] lemma sorted_flatten (es : List (Key × Slot)) :
    Assoc.Sorted (flatten es) ↔ Assoc.Sorted es := Assoc.sorted_map _ _

@[simp] lemma overflowPages_flatten (es : List (Key × Slot)) : overflowPages (flatten es) = [] := by
  induction es with
  | nil => rfl
  | cons e es ih => exact (congrArg₂ (·++·) e.2.pages_flat ih :)

lemma flatten_stored {f : ℕ → Bytes} {es : List (Key × Slot)} : ∀ e ∈ flatten es, e.2.Stored f := by
  intro e he
  obtain ⟨x,-,rfl⟩ := List.mem_map.mp he
  cases x.2 <;> trivial

lemma decodeLeafNode_flatten {b : Bytes} {es : List (Key × Slot)} {next : ℕ}
    (h : decodeLeafNodeRefs b = .ok (es.map Prod.fst,es.map (fun e => e.2.ref),next)) :
    decodeLeafNode b = .ok ((flatten es).map Prod.fst,(flatten es).map (fun e => e.2.packed),next) := by
  have hv : (es.map (fun e => e.2.ref)).map LeafValueRef.value =
      (flatten es).map (fun e => e.2.packed) := by
    simp [flatten,Slot.ref_value]
  rw [decodeLeafNode,h,flatten_keys,← hv]
  rfl

lemma overflowPages_put (k : Key) (e : Slot) (es : List (Key × Slot)) (hs : Assoc.Sorted es) :
    overflowPages (Assoc.put k e (flatten es)) = e.pages := by
  have hx := overflowPages_flatten es
  obtain ⟨a,b,ha,hb,h | ⟨w,h⟩⟩ := Assoc.split_at k ((sorted_flatten es).mpr hs)
  · rw [h,overflowPages_append,List.append_eq_nil_iff] at hx
    rw [h,Assoc.put_new ha hb,overflowPages_append,overflowPages_cons,hx.1,hx.2]
    simp
  · rw [h,overflowPages_append,overflowPages_cons,List.append_eq_nil_iff,List.append_eq_nil_iff] at hx
    rw [h,Assoc.put_here ha,overflowPages_append,overflowPages_cons,hx.1,hx.2.2]
    simp

end Slots
end Plomvix.KV
