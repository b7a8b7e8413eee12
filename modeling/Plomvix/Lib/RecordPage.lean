import Plomvix.Lib.Bytes

/-! A page of records: how many they are and where the next one goes, then the records one after
another. -/
namespace Plomvix.Lib

/-- The `w` low-order bytes of `n`, least significant first. -/
def leBytes (w n : ℕ) : Bytes := (beBytes w n).reverse

def leNat (b : Bytes) : ℕ := beNat b.reverse

@[simp] lemma leBytes_length (w n : ℕ) : (leBytes w n).length = w := by
    rw [leBytes,List.length_reverse,beBytes_length]

lemma leNat_leBytes {w n : ℕ} (h : n < 256^w) : leNat (leBytes w n) = n := by
    rw [leNat,leBytes,List.reverse_reverse,beNat_beBytes h]

/-- A number of `w` bytes in front, and what follows. -/
def readLe (w : ℕ) (b : Bytes) : Option (ℕ × Bytes) :=
  if b.length < w then none else some (leNat (b.take w),b.drop w)

def readBytes (n : ℕ) (b : Bytes) : Option (Bytes × Bytes) :=
  if b.length < n then none else some (b.take n,b.drop n)

lemma readLe_leBytes {w n : ℕ} (h : n < 256^w) (rest : Bytes) :
    readLe w (leBytes w n++rest) = some (n,rest) := by
  rw [readLe,if_neg (by simp),List.take_left' (leBytes_length ..),
    List.drop_left' (leBytes_length ..),leNat_leBytes h]

lemma readBytes_append (a rest : Bytes) : readBytes a.length (a++rest) = some (a,rest) := by
  rw [readBytes,if_neg (by simp),List.take_left,List.drop_left]

def putAt (b : Bytes) (off : ℕ) (x : Bytes) : Bytes := b.take off++x++b.drop (off+x.length)

lemma putAt_append {a x y : Bytes} {off : ℕ} (ha : a.length = off) (hx : x.length = y.length) (b : Bytes) :
    putAt (a++(x++b)) off y = a++(y++b) := by
  subst ha
  rw [putAt,List.take_left,← hx,List.drop_length_add_append,List.drop_left,List.append_assoc]

/-- A form of records from which each can be read back whatever follows it. -/
structure Codec (α : Type) where
  encode : α → Bytes
  /-- The record and its length. -/
  decode : Bytes → Option (α × ℕ)
  Fits : α → Prop
  encode_pos : ∀ a, 0 < (encode a).length
  decode_encode : ∀ a rest, Fits a → decode (encode a++rest) = some (a,(encode a).length)

namespace RecordPage

def headerSize : ℕ := 8

def header (num next : ℕ) : Bytes := leBytes 4 num++leBytes 4 next

def num (body : Bytes) : ℕ := leNat (body.take 4)

def next (body : Bytes) : ℕ := leNat ((body.drop 4).take 4)

def writeHeader (num next : ℕ) (body : Bytes) : Bytes := putAt body 0 (header num next)

variable {α : Type} (c : Codec α)

def decodeRecords : ℕ → Bytes → List α
  | 0,_ => []
  | n+1,b =>
    match c.decode b with
    | none => []
    | some (a,len) => a::decodeRecords n (b.drop len)

def decode (body : Bytes) : List α :=
  if body.length < headerSize then [] else decodeRecords c (num body) (body.drop headerSize)

/-- A record is written at the next offset, and the header counts it. -/
def add (a : α) (num next : ℕ) (body : Bytes) : Bytes :=
  writeHeader (num+1) (next+(c.encode a).length) (putAt body next (c.encode a))

def encodeAll (l : List α) : Bytes := l.flatMap c.encode

def used (l : List α) : ℕ := headerSize+(encodeAll c l).length

def page (size : ℕ) (l : List α) : Bytes := padTo size (header l.length (used c l)++encodeAll c l)

/-- The records can be read back and have room on a page. -/
structure Fits (size : ℕ) (l : List α) : Prop where
  each : ∀ a ∈ l, c.Fits a
  room : used c l ≤ size
  small : size < 256^4

@[simp] lemma header_length (num next : ℕ) : (header num next).length = headerSize := by
    simp [header,headerSize]

lemma num_header {n m : ℕ} (h : n < 256^4) (b : Bytes) : num (header n m++b) = n := by
  rw [num,header,List.append_assoc,List.take_left' (leBytes_length ..),leNat_leBytes h]

lemma next_header {n m : ℕ} (h : m < 256^4) (b : Bytes) : next (header n m++b) = m := by
  rw [next,header,List.append_assoc,List.drop_left' (leBytes_length ..),
    List.take_left' (leBytes_length ..),leNat_leBytes h]

lemma writeHeader_header (n m n' m' : ℕ) (b : Bytes) :
    writeHeader n' m' (header n m++b) = header n' m'++b := by
  exact putAt_append (a := []) rfl (show (header n m).length = (header n' m').length by simp) b

section Page
variable {c} {size : ℕ} {l : List α}

lemma encodeAll_cons (a : α) (l : List α) : encodeAll c (a::l) = c.encode a++encodeAll c l :=
  List.flatMap_cons

lemma decodeRecords_encodeAll (h : ∀ a ∈ l, c.Fits a) (rest : Bytes) :
    decodeRecords c l.length (encodeAll c l++rest) = l := by
  induction l with
  | nil => rfl
  | cons a l ih =>
    obtain ⟨ha,hl⟩ := List.forall_mem_cons.mp h
    rw [List.length_cons,decodeRecords,encodeAll_cons,List.append_assoc,c.decode_encode a _ ha]
    simp only
    rw [List.drop_left,ih hl]

lemma length_le_encodeAll (l : List α) : l.length ≤ (encodeAll c l).length := by
  induction l with
  | nil => rfl
  | cons a l ih =>
    have hpos := c.encode_pos a
    rw [encodeAll_cons,List.length_append,List.length_cons]
    omega

lemma encodeAll_concat (l : List α) (a : α) : encodeAll c (l++[a]) = encodeAll c l++c.encode a := by
    simp [encodeAll]

lemma used_concat (l : List α) (a : α) : used c (l++[a]) = used c l+(c.encode a).length := by
  rw [used,encodeAll_concat,List.length_append,used,Nat.add_assoc]

lemma page_eq (size : ℕ) (l : List α) :
    page c size l = header l.length (used c l)++(encodeAll c l++List.replicate (size-used c l) 0) := by
  rw [page,padTo,List.append_assoc,List.length_append,header_length,used]

lemma page_length (h : used c l ≤ size) : (page c size l).length = size := by
  rw [page,padTo_length,List.length_append,header_length,← used,max_eq_left h]

lemma decode_zeros (size : ℕ) : decode c (List.replicate size 0) = [] := by
  have hnum : num (List.replicate size 0) = 0 := by
    rw [num,List.take_replicate]
    have hmin : min 4 size ≤ 4 := min_le_left ..
    interval_cases min 4 size <;> rfl
  rw [decode]
  split_ifs
  · rfl
  · rw [hnum,decodeRecords]

lemma writeHeader_zeros (h : headerSize ≤ size) :
    writeHeader 0 headerSize (List.replicate size 0) = page c size [] := by
  have hzeros : List.replicate size (0 : UInt8) =
    List.replicate headerSize 0++List.replicate (size-headerSize) 0 := by
    rw [List.replicate_append_replicate,Nat.add_sub_cancel' h]
  rw [writeHeader,hzeros]
  exact putAt_append (a := []) rfl (show (List.replicate headerSize (0 : UInt8)).length =
    (header 0 headerSize).length by simp) _

namespace Fits

lemma num_page (h : Fits c size l) : num (page c size l) = l.length := by
  have hroom := h.room
  have hsmall := h.small
  have hmany := length_le_encodeAll (c := c) l
  rw [used] at hroom
  rw [page_eq,num_header (by omega)]

lemma next_page (h : Fits c size l) : next (page c size l) = used c l := by
  rw [page_eq,next_header (h.room.trans_lt h.small)]

lemma decode_page (h : Fits c size l) : decode c (page c size l) = l := by
  have hroom := h.room
  rw [decode,page_length h.room,if_neg (by rw [used] at hroom; omega),h.num_page,page_eq,
    List.drop_left' (header_length ..),
    decodeRecords_encodeAll h.each]

lemma add_page {a : α} (h : Fits c size l) (hroom : used c (l++[a]) ≤ size) :
    add c a (num (page c size l)) (next (page c size l)) (page c size l) = page c size (l++[a]) := by
  have hzeros : List.replicate (size-used c l) (0 : UInt8) =
      List.replicate (c.encode a).length 0++List.replicate (size-used c (l++[a])) 0 := by
    rw [used_concat] at hroom ⊢
    rw [List.replicate_append_replicate]
    congr 1
    omega
  have hlen : (header l.length (used c l)++encodeAll c l).length = used c l := by
    rw [List.length_append,header_length,used]
  rw [h.num_page,h.next_page,add,page_eq,hzeros,← List.append_assoc,
    putAt_append hlen (by rw [List.length_replicate]),
    List.append_assoc,writeHeader_header,page_eq,List.length_append,List.length_singleton,
      used_concat,encodeAll_concat,
    List.append_assoc]

lemma concat {a : α} (h : Fits c size l) (ha : c.Fits a) (hroom : used c (l++[a]) ≤ size) :
    Fits c size (l++[a]) := by
  refine ⟨fun x hx => ?_,hroom,h.small⟩
  obtain hx | hx := List.mem_append.mp hx
  · exact h.each x hx
  · rw [List.mem_singleton.mp hx]
    exact ha

end Fits
end Page
end RecordPage
end Plomvix.Lib
