import Plomvix.Pager.Format
import Plomvix.Lib.Fallible

/-! The page layouts of the B+ tree store: meta page, leaves, inner nodes and overflow pages,
with the encoders and decoders of `node.go`. -/
namespace Plomvix.KV
open Lib Pager

/-- A `key.Key` is compared and stored by its bytes. -/
abbrev Key := Bytes

def maxKeySize : ℕ := 63
def maxValSize : ℕ := 512
def maxLeafKeys : ℕ := 7
def maxInternalKeys : ℕ := 56
def leafSlotSize : ℕ := 580
def internalSlotSize : ℕ := 72
def maxValSizeEnterprise : ℕ := 16*1024*1024
def maxOverflowChainLen : ℕ := 5000
def overflowChunkSize : ℕ := 4075
def nodeTypeLeaf : UInt8 := 0x01
def nodeTypeInternal : UInt8 := 0x02
def nodeTypeMeta : UInt8 := 0x03
def nodeTypeOverflow : UInt8 := 0x04
def metaPageID : ℕ := firstDataPageID
def rootSentinel : ℕ := 0xFFFFFFFFFFFFFFFF

inductive Err
  | keyNotFound | keyTooLarge | valueTooLarge | treeCorrupt | notOpen | closed
  | pager (e : Pager.Err)
  | wrap (text : String) (e : Err)
  deriving DecidableEq, Repr

def encodeMetaPage (rootPageID : ℕ) : Bytes :=
  padTo dataPageBodySize (nodeTypeMeta::beBytes 8 rootPageID)

def decodeMetaPage (data : Bytes) : Except Err ℕ :=
  if data.length ≠ dataPageBodySize then .error (.wrap "wrong meta page size" .treeCorrupt)
  else if data.headD 0 ≠ nodeTypeMeta then .error (.wrap "not a meta page" .treeCorrupt)
  else .ok (beNat ((data.drop 1).take 8))

/-- How a leaf slot stores its value. -/
structure LeafValueRef where
  totalLen : ℕ
  inline : Bytes
  overflowPageID : ℕ
  hasOverflow : Bool
  deriving DecidableEq, Repr

/-- One slot; a value longer than `maxValSize` is taken as an overflow page ID and a value. -/
def encodeLeafSlot (k : Key) (v : Bytes) : Except Err Bytes :=
  if k.length > maxKeySize then .error .keyTooLarge
  else if v.length > maxValSizeEnterprise then .error .valueTooLarge
  else .ok (UInt8.ofNat k.length::padTo 63 k++
    if v.length > maxValSize then beBytes 4 (v.length-8)++v.take 8++(v.drop 8).take 504
    else beBytes 4 v.length++padTo 512 v)

def encodeLeafNode (keys : List Key) (values : List Bytes) (nextLeaf : ℕ) : Except Err Bytes :=
  if keys.length ≠ values.length then .error (.wrap "keys/values length mismatch" .treeCorrupt)
  else if keys.length > maxLeafKeys then .error (.wrap "too many leaf keys" .treeCorrupt)
  else if ¬keys.IsChain (· < ·) then .error (.wrap "leaf keys not strictly ascending" .treeCorrupt)
  else do
    let slots ← (keys.zip values).mapM (fun p => encodeLeafSlot p.1 p.2)
    .ok (padTo dataPageBodySize (nodeTypeLeaf::beBytes 2 keys.length++beBytes 8 nextLeaf++slots.flatten))

def decodeLeafSlot (slot : Bytes) : Except Err (Key × LeafValueRef) :=
  let kLen := (slot.headD 0).toNat
  if kLen > maxKeySize then .error (.wrap "leaf key length exceeds max" .treeCorrupt)
  else
    let k := (slot.drop 1).take kLen
    let totalLen := beNat ((slot.drop 64).take 4)
    if totalLen > maxValSizeEnterprise then
      .error (.wrap "leaf value length exceeds enterprise max" .treeCorrupt)
    else if totalLen > maxValSize then
      .ok (k,⟨totalLen,(slot.drop 76).take 504,beNat ((slot.drop 68).take 8),true⟩)
    else .ok (k,⟨totalLen,(slot.drop 68).take totalLen,0,false⟩)

/-- The slot loop: `n` slots from the front of the data. -/
def decodeSlots {α : Type} (size : ℕ) (slot : Bytes → Except Err α) : ℕ → Bytes → Except Err (List α)
  | 0,_ => .ok []
  | n+1,data => do
    let x ← slot (data.take size)
    let xs ← decodeSlots size slot n (data.drop size)
    .ok (x::xs)

def decodeLeafNodeRefs (data : Bytes) : Except Err (List Key × List LeafValueRef × ℕ) :=
  if data.length ≠ dataPageBodySize then .error (.wrap "wrong leaf body size" .treeCorrupt)
  else if data.headD 0 ≠ nodeTypeLeaf then .error (.wrap "not a leaf node" .treeCorrupt)
  else
    let count := beNat ((data.drop 1).take 2)
    if count > maxLeafKeys then .error (.wrap "leaf NumKeys > MaxLeafKeys" .treeCorrupt)
    else do
      let slots ← decodeSlots leafSlotSize decodeLeafSlot count (data.drop 11)
      .ok (slots.map Prod.fst,slots.map Prod.snd,beNat ((data.drop 3).take 8))

/-- The value bytes `decodeLeafNode` returns for a slot. -/
def LeafValueRef.value (ref : LeafValueRef) : Bytes :=
  if ref.hasOverflow then padTo 512 (beBytes 8 ref.overflowPageID++ref.inline) else ref.inline

def decodeLeafNode (data : Bytes) : Except Err (List Key × List Bytes × ℕ) := do
  let (keys,refs,nextLeaf) ← decodeLeafNodeRefs data
  .ok (keys,refs.map LeafValueRef.value,nextLeaf)

def encodeInternalSlot (k : Key) (childPtr : ℕ) : Except Err Bytes :=
  if k.length > maxKeySize then .error .keyTooLarge
  else .ok (UInt8.ofNat k.length::padTo 63 k++beBytes 8 childPtr)

def encodeInternalNode (childPtrs : List ℕ) (keys : List Key) : Except Err Bytes :=
  if childPtrs.length ≠ keys.length+1 then
    .error (.wrap "internal childPtrs/keys count mismatch" .treeCorrupt)
  else if keys.length > maxInternalKeys then .error (.wrap "too many internal keys" .treeCorrupt)
  else if ¬keys.IsChain (· < ·) then
    .error (.wrap "internal keys not strictly ascending" .treeCorrupt)
  else do
    let slots ← (keys.zip childPtrs.tail).mapM (fun p => encodeInternalSlot p.1 p.2)
    .ok (padTo dataPageBodySize
      (nodeTypeInternal::beBytes 2 keys.length++beBytes 8 (childPtrs.headD 0)++slots.flatten))

def decodeInternalSlot (slot : Bytes) : Except Err (Key × ℕ) :=
  let kLen := (slot.headD 0).toNat
  if kLen > maxKeySize then .error (.wrap "internal key length exceeds max" .treeCorrupt)
  else .ok ((slot.drop 1).take kLen,beNat ((slot.drop 64).take 8))

def decodeInternalNode (data : Bytes) : Except Err (List ℕ × List Key) :=
  if data.length ≠ dataPageBodySize then .error (.wrap "wrong internal body size" .treeCorrupt)
  else if data.headD 0 ≠ nodeTypeInternal then .error (.wrap "not an internal node" .treeCorrupt)
  else
    let count := beNat ((data.drop 1).take 2)
    if count > maxInternalKeys then
      .error (.wrap "internal NumKeys > MaxInternalKeys" .treeCorrupt)
    else do
      let slots ← decodeSlots internalSlotSize decodeInternalSlot count (data.drop 11)
      .ok (beNat ((data.drop 3).take 8)::slots.map Prod.snd,slots.map Prod.fst)

def encodeOverflowPage (nextPtr : ℕ) (chunk : Bytes) : Except Err Bytes :=
  let n := chunk.length
  if n > overflowChunkSize then
    .error (.wrap s!"overflow chunk too large: {n} > {overflowChunkSize}" .treeCorrupt)
  else .ok (padTo dataPageBodySize (nodeTypeOverflow::beBytes 8 nextPtr++chunk))

/-- The chunk is the whole rest of the page, its zero padding included. -/
def decodeOverflowPage (data : Bytes) : Except Err (ℕ × Bytes) :=
  if data.length ≠ dataPageBodySize then .error (.wrap "wrong overflow body size" .treeCorrupt)
  else if data.headD 0 ≠ nodeTypeOverflow then .error (.wrap "not an overflow page" .treeCorrupt)
  else .ok (beNat ((data.drop 1).take 8),data.drop 9)

/-- The reference read back from a slot written with value bytes `v`. -/
def refOf (v : Bytes) : LeafValueRef :=
  if v.length > maxValSize then ⟨v.length-8,(v.drop 8).take 504,beNat (v.take 8),true⟩
  else ⟨v.length,v,0,false⟩

def Storable (v : Bytes) : Prop :=
  v.length ≤ maxValSizeEnterprise ∧ (v.length ≤ maxValSize ∨ maxValSize+8 < v.length)

lemma key_field {k : Key} (hk : k.length ≤ maxKeySize) (t : Bytes) :
    ((UInt8.ofNat k.length::padTo 63 k++t).headD 0).toNat = k.length ∧
      ((UInt8.ofNat k.length::padTo 63 k++t).drop 1).take k.length = k := by
  simp only [maxKeySize] at hk
  constructor
  · simp only [List.cons_append,List.headD_cons,UInt8.toNat_ofNat']
    omega
  · simp [padTo]

lemma decodeLeafSlot_encode {k : Key} {v slot : Bytes} (hv : Storable v)
    (h : encodeLeafSlot k v = .ok slot) :
    slot.length = leafSlotSize ∧ decodeLeafSlot slot = .ok (k,refOf v) := by
  obtain ⟨hmax,hlen⟩ := hv
  unfold encodeLeafSlot at h
  split at h
  · cases h
  rename_i hk
  rw [if_neg (by omega)] at h
  have hk' : k.length ≤ maxKeySize := by omega
  obtain ⟨hb,hkey⟩ := key_field hk' (if v.length > maxValSize then
    beBytes 4 (v.length-8)++v.take 8++(v.drop 8).take 504 else beBytes 4 v.length++padTo 512 v)
  have hpad : (UInt8.ofNat k.length::padTo 63 k).length = 64 := by
    simp only [maxKeySize] at hk'
    simp
    omega
  simp only [Except.ok.injEq] at h
  subst h
  simp only [maxValSizeEnterprise] at hmax
  simp only [decodeLeafSlot,hb,hkey,refOf]
  rw [if_neg hk]
  by_cases hl : v.length > maxValSize
  · have hl' : 520 < v.length := by simp only [maxValSize] at hl hlen; omega
    have h8 : (v.take 8).length = 8 := by simp; omega
    have hx : ((v.drop 8).take 504).length = 504 := by simp; omega
    have htot : beNat (beBytes 4 (v.length-8)) = v.length-8 := beNat_beBytes (by norm_num; omega)
    simp only [if_pos hl]
    have f4 := take_drop_field (c := v.take 8++(v.drop 8).take 504) hpad (beBytes_length 4 (v.length-8))
    have f8 := take_drop_field (c := (v.drop 8).take 504)
      (a := UInt8.ofNat k.length::padTo 63 k++beBytes 4 (v.length-8)) (i := 68)
      (by rw [List.length_append,hpad,beBytes_length]) h8
    have fx := take_drop_field (c := []) (i := 76)
      (a := UInt8.ofNat k.length::padTo 63 k++beBytes 4 (v.length-8)++v.take 8)
      (by rw [List.length_append,List.length_append,hpad,beBytes_length,h8]) hx
    simp only [List.append_assoc,List.append_nil] at f4 f8 fx ⊢
    rw [f4,f8,fx,htot,if_neg (by simp only [maxValSizeEnterprise]; omega),
      if_pos (by simp only [maxValSize]; omega)]
    refine ⟨?_,rfl⟩
    rw [List.length_append,List.length_append,List.length_append,hpad,beBytes_length,h8,hx]
    rfl
  · have hl' : v.length ≤ 512 := by simpa [maxValSize] using hl
    have htot : beNat (beBytes 4 v.length) = v.length := beNat_beBytes (by norm_num; omega)
    simp only [if_neg hl]
    have f4 := take_drop_field (c := padTo 512 v) hpad (beBytes_length 4 v.length)
    have fv := take_drop_field (c := List.replicate (512-v.length) 0) (i := 68) (n := v.length)
      (a := UInt8.ofNat k.length::padTo 63 k++beBytes 4 v.length) (b := v)
      (by rw [List.length_append,hpad,beBytes_length]) rfl
    simp only [List.append_assoc] at f4 fv ⊢
    rw [f4,htot,if_neg (by simp only [maxValSizeEnterprise]; omega),
      if_neg (by simp only [maxValSize]; omega)]
    refine ⟨?_,?_⟩
    · rw [List.length_append,List.length_append,hpad,beBytes_length,padTo_length,max_eq_left hl']
      rfl
    · rw [show padTo 512 v = v++List.replicate (512-v.length) 0 from rfl,fv]

lemma decodeInternalSlot_encode {k : Key} {a : ℕ} {slot : Bytes} (ha : a < 256^8)
    (h : encodeInternalSlot k a = .ok slot) :
    slot.length = internalSlotSize ∧ decodeInternalSlot slot = .ok (k,a) := by
  unfold encodeInternalSlot at h
  split at h
  · cases h
  rename_i hk
  have hk' : k.length ≤ maxKeySize := by omega
  obtain ⟨hb,hkey⟩ := key_field hk' (beBytes 8 a)
  have hpad : (UInt8.ofNat k.length::padTo 63 k).length = 64 := by
    simp only [maxKeySize] at hk'
    simp
    omega
  simp only [Except.ok.injEq] at h
  subst h
  have f8 := take_drop_field (c := []) hpad (beBytes_length 8 a)
  simp only [List.append_nil] at f8
  simp only [decodeInternalSlot,hb,hkey]
  rw [if_neg hk,f8,beNat_beBytes ha]
  refine ⟨?_,rfl⟩
  rw [List.length_append,hpad,beBytes_length]
  rfl

lemma mapM_mem {α β : Type} {enc : β → Except Err α} {xs : List β} {bs : List α}
    (hm : xs.mapM enc = .ok bs) : ∀ x ∈ xs, ∃ b, enc x = .ok b := by
  intro x hx
  obtain ⟨b,-,hb⟩ := forall₂_mem (Fallible.mapM_eq_ok.mp hm).flip hx
  exact ⟨b,hb⟩

lemma decodeSlots_encode {α β : Type} {w : ℕ} {g : β → Except Err Bytes}
    {d : Bytes → Except Err α} {f : β → α} {l : List β} {slots : List Bytes}
    (hm : l.mapM g = .ok slots)
    (hd : ∀ x ∈ l, ∀ b, g x = .ok b → b.length = w ∧ d b = .ok (f x)) (pad : Bytes) :
    slots.flatten.length = w*l.length ∧
      decodeSlots w d l.length (slots.flatten++pad) = .ok (l.map f) := by
  induction Fallible.mapM_eq_ok.mp hm with
  | nil => simp [decodeSlots]
  | @cons x b l bs hx hbs ih =>
    obtain ⟨hb,hdec⟩ := hd x (by simp) b hx
    obtain ⟨hl,hrest⟩ := ih (Fallible.mapM_eq_ok.mpr hbs) fun y hy => hd y (by simp [hy])
    have h1 : ((b::bs).flatten++pad).take w = b := by simp [← hb]
    have h2 : ((b::bs).flatten++pad).drop w = bs.flatten++pad := by simp [← hb]
    refine ⟨?_,?_⟩
    · rw [List.flatten_cons,List.length_append,hb,hl,List.length_cons]
      ring
    · rw [List.length_cons,decodeSlots,h1,h2,hdec,hrest]
      rfl

lemma mapM_ok {α β : Type} {g : β → Except Err α} {l : List β}
    (h : ∀ x ∈ l, ∃ b, g x = .ok b) : ∃ bs, l.mapM g = .ok bs := by
  induction l with
  | nil => exact ⟨[],rfl⟩
  | cons x l ih =>
    obtain ⟨b,hb⟩ := h x (by simp)
    obtain ⟨bs,hbs⟩ := ih (fun y hy => h y (by simp [hy]))
    exact ⟨b::bs,by rw [List.mapM_cons,hb,hbs]; rfl⟩

lemma node_fields {t : UInt8} {n a : ℕ} {slots : Bytes} (hn : n < 256^2) (ha : a < 256^8)
    (hs : slots.length ≤ dataPageBodySize-11) :
    let b := padTo dataPageBodySize (t::beBytes 2 n++beBytes 8 a++slots)
    b.length = dataPageBodySize ∧ b.headD 0 = t ∧ beNat ((b.drop 1).take 2) = n ∧
      beNat ((b.drop 3).take 8) = a ∧
      b.drop 11 = slots++List.replicate (dataPageBodySize-11-slots.length) 0 := by
  have hd : dataPageBodySize = 4084 := rfl
  have hlen : (t::beBytes 2 n++beBytes 8 a++slots).length = 11+slots.length := by
    simp only [List.length_append,List.length_cons,beBytes_length]
  have f2 := take_drop_field (a := [t]) (i := 1) (c := beBytes 8 a++slots++
    List.replicate (dataPageBodySize-(11+slots.length)) 0) rfl (beBytes_length 2 n)
  have f8 := take_drop_field (a := t::beBytes 2 n) (i := 3) (c := slots++
    List.replicate (dataPageBodySize-(11+slots.length)) 0) (by simp) (beBytes_length 8 a)
  have hb : padTo dataPageBodySize (t::beBytes 2 n++beBytes 8 a++slots) =
      t::beBytes 2 n++beBytes 8 a++slots++List.replicate (dataPageBodySize-(11+slots.length)) 0 := by
    rw [padTo,hlen]
  refine ⟨?_,?_,?_,?_,?_⟩
  · rw [padTo_length,hlen,max_eq_left (by omega)]
  · rw [hb]
    rfl
  · rw [hb]
    simp only [List.append_assoc,List.cons_append,List.nil_append] at f2 ⊢
    rw [f2,beNat_beBytes hn]
  · rw [hb]
    simp only [List.append_assoc,List.cons_append] at f8 ⊢
    rw [f8,beNat_beBytes ha]
  · rw [hb,List.append_assoc (t::beBytes 2 n++beBytes 8 a) slots,List.drop_left' (by simp),Nat.sub_sub]

/-- What the leaf encoder accepts. -/
structure LeafFits (keys : List Key) (values : List Bytes) : Prop where
  length_eq : keys.length = values.length
  count : keys.length ≤ maxLeafKeys
  ascending : keys.Pairwise (· < ·)
  key_size : ∀ k ∈ keys, k.length ≤ maxKeySize
  storable : ∀ v ∈ values, Storable v

/-- What the encoder of inner nodes accepts. -/
structure InternalFits (childPtrs : List ℕ) (keys : List Key) : Prop where
  length_eq : childPtrs.length = keys.length+1
  count : keys.length ≤ maxInternalKeys
  ascending : keys.Pairwise (· < ·)
  key_size : ∀ k ∈ keys, k.length ≤ maxKeySize
  ptr_size : ∀ a ∈ childPtrs, a < 256^8

theorem encodeLeafNode_decode {keys : List Key} {values : List Bytes} {next : ℕ}
    (hf : LeafFits keys values) (hn : next < 256^8) :
    ∃ b, encodeLeafNode keys values next = .ok b ∧
      decodeLeafNodeRefs b = .ok (keys,values.map refOf,next) := by
  have hc := hf.count
  obtain ⟨slots,hm⟩ := mapM_ok (g := fun p : Key × Bytes => encodeLeafSlot p.1 p.2)
    (l := keys.zip values) fun p hp => by
      have hk := hf.key_size _ (List.of_mem_zip hp).1
      have hv := (hf.storable _ (List.of_mem_zip hp).2).1
      exact ⟨_,by rw [encodeLeafSlot,if_neg (by omega),if_neg (by omega)]⟩
  have hl : (keys.zip values).length = keys.length := by simp [hf.length_eq]
  have hd := decodeSlots_encode (w := leafSlotSize) (d := decodeLeafSlot)
    (f := fun p : Key × Bytes => (p.1,refOf p.2)) hm fun p hp b hb =>
      decodeLeafSlot_encode (hf.storable _ (List.of_mem_zip hp).2) hb
  have hs : slots.flatten.length ≤ dataPageBodySize-11 := by
    rw [(hd []).1,hl]
    exact (Nat.mul_le_mul_left leafSlotSize hc).trans (by decide)
  obtain ⟨b1,b2,b3,b4,b5⟩ := node_fields (t := nodeTypeLeaf) (n := keys.length)
    (by simp only [maxLeafKeys] at hc; omega) hn hs
  refine ⟨padTo dataPageBodySize
    (nodeTypeLeaf::beBytes 2 keys.length++beBytes 8 next++slots.flatten),?_,?_⟩
  · rw [encodeLeafNode,if_neg (by simpa using hf.length_eq),if_neg (by omega),
      if_neg (not_not.mpr hf.ascending.isChain),hm]
    rfl
  · rw [decodeLeafNodeRefs,if_neg (not_not.mpr b1),if_neg (not_not.mpr b2),b3,if_neg (by omega),b4,b5,← hl,
      (hd _).2]
    change Except.ok _ = _
    simp only [List.map_map]
    rw [show Prod.fst∘(fun p : Key × Bytes => (p.1,refOf p.2)) = Prod.fst from rfl,
      show Prod.snd∘(fun p : Key × Bytes => (p.1,refOf p.2)) = refOf∘Prod.snd from rfl,
      ← List.map_map,List.map_fst_zip hf.length_eq.le,List.map_snd_zip hf.length_eq.ge]

theorem encodeInternalNode_decode {childPtrs : List ℕ} {keys : List Key}
    (hf : InternalFits childPtrs keys) :
    ∃ b, encodeInternalNode childPtrs keys = .ok b ∧ decodeInternalNode b = .ok (childPtrs,keys) := by
  have hc := hf.count
  obtain ⟨a,as,rfl⟩ : ∃ a as, childPtrs = a::as :=
    List.exists_cons_of_ne_nil (by rintro rfl; simpa using hf.length_eq)
  have hle : keys.length = as.length := by simpa using hf.length_eq.symm
  obtain ⟨slots,hm⟩ := mapM_ok (g := fun p : Key × ℕ => encodeInternalSlot p.1 p.2)
    (l := keys.zip as) fun p hp => by
      have hk := hf.key_size _ (List.of_mem_zip hp).1
      exact ⟨_,by rw [encodeInternalSlot,if_neg (by omega)]⟩
  have hl : (keys.zip as).length = keys.length := by simp [hle]
  have hd := decodeSlots_encode (w := internalSlotSize) (d := decodeInternalSlot)
    (f := id) hm fun p hp b hb =>
      decodeInternalSlot_encode (hf.ptr_size _ (List.mem_cons_of_mem _ (List.of_mem_zip hp).2)) hb
  have hs : slots.flatten.length ≤ dataPageBodySize-11 := by
    rw [(hd []).1,hl]
    exact (Nat.mul_le_mul_left internalSlotSize hc).trans (by decide)
  obtain ⟨b1,b2,b3,b4,b5⟩ := node_fields (t := nodeTypeInternal) (n := keys.length)
    (by simp only [maxInternalKeys] at hc; omega) (hf.ptr_size a (by simp)) hs
  refine ⟨padTo dataPageBodySize
    (nodeTypeInternal::beBytes 2 keys.length++beBytes 8 a++slots.flatten),?_,?_⟩
  · rw [encodeInternalNode,if_neg (by simpa using hf.length_eq),if_neg (by omega),
      if_neg (not_not.mpr hf.ascending.isChain),List.tail_cons,hm]
    rfl
  · rw [decodeInternalNode,if_neg (not_not.mpr b1),if_neg (not_not.mpr b2),b3,
      if_neg (by omega),b4,b5,← hl,(hd _).2]
    change Except.ok _ = _
    simp only [List.map_id,List.map_fst_zip hle.le,List.map_snd_zip hle.ge]

lemma decodeLeafNodeRefs_type {b : Bytes} {r : List Key × List LeafValueRef × ℕ}
    (h : decodeLeafNodeRefs b = .ok r) : b.length = dataPageBodySize ∧ b.headD 0 = nodeTypeLeaf := by
  unfold decodeLeafNodeRefs at h
  split at h
  · cases h
  split at h
  · cases h
  · exact ⟨not_not.mp ‹_›,not_not.mp ‹_›⟩

lemma decodeInternalNode_type {b : Bytes} {r : List ℕ × List Key}
    (h : decodeInternalNode b = .ok r) :
    b.length = dataPageBodySize ∧ b.headD 0 = nodeTypeInternal := by
  unfold decodeInternalNode at h
  split at h
  · cases h
  split at h
  · cases h
  · exact ⟨not_not.mp ‹_›,not_not.mp ‹_›⟩

@[simp] lemma encodeMetaPage_length (a : ℕ) : (encodeMetaPage a).length = dataPageBodySize := by
  simp [encodeMetaPage,dataPageBodySize,pageSize]

theorem decodeMetaPage_encode {a : ℕ} (ha : a < 256^8) : decodeMetaPage (encodeMetaPage a) = .ok a := by
  have f8 := take_drop_field (a := [nodeTypeMeta]) (i := 1)
    (c := List.replicate (dataPageBodySize-9) 0) rfl (beBytes_length 8 a)
  have hb : encodeMetaPage a =
      [nodeTypeMeta]++beBytes 8 a++List.replicate (dataPageBodySize-9) 0 := by
    simp [encodeMetaPage,padTo]
  rw [decodeMetaPage,if_neg (not_not.mpr (encodeMetaPage_length a)),hb,f8,beNat_beBytes ha]
  rfl

theorem encodeOverflowPage_decode {next : ℕ} {chunk : Bytes} (hn : next < 256^8)
    (hc : chunk.length ≤ overflowChunkSize) :
    ∃ b, encodeOverflowPage next chunk = .ok b ∧ b.length = dataPageBodySize ∧
      decodeOverflowPage b = .ok (next,padTo overflowChunkSize chunk) := by
  have h9 : (nodeTypeOverflow::beBytes 8 next).length = 9 := by simp
  have hlen : (nodeTypeOverflow::beBytes 8 next++chunk).length = 9+chunk.length := by
    rw [List.length_append,h9]
  have hb : padTo dataPageBodySize (nodeTypeOverflow::beBytes 8 next++chunk) =
      nodeTypeOverflow::beBytes 8 next++padTo overflowChunkSize chunk := by
    rw [padTo,padTo,hlen,List.append_assoc,Nat.sub_add_eq]
    rfl
  have hp : (padTo dataPageBodySize (nodeTypeOverflow::beBytes 8 next++chunk)).length =
      dataPageBodySize := by
    rw [padTo_length,hlen,max_eq_left]
    simp only [overflowChunkSize] at hc
    simp only [dataPageBodySize,pageSize]
    omega
  have f8 := take_drop_field (a := [nodeTypeOverflow]) (i := 1)
    (c := padTo overflowChunkSize chunk) rfl (beBytes_length 8 next)
  refine ⟨_,if_neg (by omega),hp,?_⟩
  rw [decodeOverflowPage,if_neg (not_not.mpr hp),hb]
  simp only [List.cons_append,List.nil_append] at f8 ⊢
  rw [f8,beNat_beBytes hn,if_neg (by simp),← List.cons_append,List.drop_left' h9]

lemma encodeLeafNode_too_large {keys : List Key} {values : List Bytes} {next : ℕ}
    (hl : keys.length = values.length) (h : ∃ v ∈ values, maxValSizeEnterprise < v.length) :
    ∃ e, encodeLeafNode keys values next = .error e := by
  cases he : encodeLeafNode keys values next with
  | error e => exact ⟨e,rfl⟩
  | ok b =>
    obtain ⟨v,hv,hlong⟩ := h
    unfold encodeLeafNode at he
    split at he
    · cases he
    split at he
    · cases he
    split at he
    · cases he
    obtain ⟨slots,hm,-⟩ := Fallible.bind_eq_ok.mp he
    obtain ⟨i,hi,rfl⟩ := List.getElem_of_mem hv
    have hmem : (keys[i],values[i]) ∈ keys.zip values := by
      refine List.mem_iff_getElem.mpr ⟨i,?_,?_⟩
      · simp
        omega
      · simp
    obtain ⟨s,hs⟩ := mapM_mem hm _ hmem
    simp only [encodeLeafSlot,if_pos hlong] at hs
    split at hs <;> cases hs

end Plomvix.KV
