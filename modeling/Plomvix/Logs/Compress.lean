import Plomvix.Pager.PageStore

/-! Compressed blocks of logs, in memory and over the pages of the pager. DEFLATE is a parameter. -/
namespace Plomvix.Logs.Compress
open Lib Pager

def blockMagic : UInt32 := 0x4C4F4743
def blockHeaderSize : ℕ := 32
def chunkSize : ℕ := dataPageBodySize

/-- The fields before a compressed block. -/
structure BlockHeader where
  magic : UInt32
  uncompressedLength : UInt32
  compressedLength : UInt32
  recordCount : UInt32
  minTimestamp : Int64
  maxTimestamp : Int64
  deriving DecidableEq

/-- How a compressed stream ends for its reader. -/
inductive Ended
  | eof | unexpectedEOF | corrupt
  deriving DecidableEq

/-- The bytes that a stream inflates to, and how it ends after them. -/
abbrev Inflate := Bytes → Bytes × Ended

/-- A compressor and its decompressor. -/
structure Deflate where
  compress : Bytes → Bytes
  inflate : Inflate
  lossless : ∀ raw, inflate (compress raw) = (raw,.eof)
  /-- Stored blocks keep the growth small. -/
  bounded : ∀ raw, raw.length < 2^31 → (compress raw).length+32 < 2^32

inductive Err
  | small
  | magic (found : UInt32)
  | corrupt
  | pager (e : Pager.Err)
  | panic
  deriving DecidableEq

def be32 (n : UInt32) : Bytes := beBytes 4 n.toNat

def getUint32 (b : Bytes) : UInt32 := UInt32.ofNat (beNat (b.take 4))

def encodeHeader (h : BlockHeader) : Bytes :=
  be32 h.magic++(be32 h.uncompressedLength++(be32 h.compressedLength++(be32 h.recordCount++
    (beBytes 8 h.minTimestamp.toUInt64.toNat++beBytes 8 h.maxTimestamp.toUInt64.toNat))))

def decodeHeader (b : Bytes) : BlockHeader where
  magic := getUint32 b
  uncompressedLength := getUint32 (b.drop 4)
  compressedLength := getUint32 (b.drop 8)
  recordCount := getUint32 (b.drop 12)
  minTimestamp := (UInt64.ofNat (beNat ((b.drop 16).take 8))).toInt64
  maxTimestamp := (UInt64.ofNat (beNat ((b.drop 24).take 8))).toInt64

/-- The block, and the header with the fields that are filled in. -/
def compressBlock (compress : Bytes → Bytes) (raw : Bytes) (header : BlockHeader) : Bytes × BlockHeader :=
  let header := {header with
    magic := blockMagic,uncompressedLength := .ofNat raw.length,
    compressedLength := .ofNat (compress raw).length}
  (encodeHeader header++compress raw,header)

/-- `io.ReadFull` into a slice of zeros, of which an end of the stream is no error. -/
def readFull (inflate : Inflate) (payload : Bytes) (n : ℕ) : Except Err Bytes :=
  if (inflate payload).1.length < n ∧ (inflate payload).2 = .corrupt then .error .corrupt
  else .ok (padTo n ((inflate payload).1.take n))

/-- The bytes of the slice up to its length, and from there to its capacity. The end of the payload
is a 32-bit sum. -/
def decompressBlock (inflate : Inflate) (b spare : Bytes) : Except Err (Bytes × BlockHeader) :=
  if b.length < blockHeaderSize then .error .small
  else if (decodeHeader b).magic≠blockMagic then .error (.magic (decodeHeader b).magic)
  else
    let stop := (32+(decodeHeader b).compressedLength).toNat
    if stop < blockHeaderSize ∨ (b++spare).length < stop then .error .panic
    else (readFull inflate (((b++spare).take stop).drop blockHeaderSize)
      (decodeHeader b).uncompressedLength.toNat).map (·,decodeHeader b)

/-- The loop: a page for each chunk, the last one filled up with zeros. -/
def writeBlock (s : PageStore) (pageID : ℕ) (data : Bytes) : Except Err Unit × PageStore :=
  if data = [] then (.ok (),s)
  else
    match s.writePage pageID (padTo chunkSize (data.take chunkSize)) with
    | (.error e,s) => (.error (.pager e),s)
    | (.ok (),s) => writeBlock s (pageID+1) (data.drop chunkSize)
termination_by data.length
decreasing_by
  have hpos : 0 < data.length := List.length_pos_of_ne_nil (by assumption)
  simp only [List.length_drop]
  have hchunk : chunkSize = 4084 := rfl
  omega

def copyAt (b : Bytes) (offset : ℕ) (src : Bytes) : Bytes :=
  b.take offset++(src.take (b.length-offset)++b.drop (offset+src.length))

/-- The loop over the `n` pages that are left, from the `i`-th on. -/
def readPages (s : PageStore) (start : ℕ) : ℕ → ℕ → Bytes → Except Err Bytes
  | 0,_,block => .ok block
  | n+1,i,block =>
    match (s.readPage (start+i)).1 with
    | .error e => .error (.pager e)
    | .ok body => readPages s start n (i+1) (copyAt block (i*chunkSize) body)

def readBlock (s : PageStore) (start : ℕ) : Except Err Bytes :=
  match (s.readPage start).1 with
  | .error e => .error (.pager e)
  | .ok first =>
    if first.length < blockHeaderSize then .error .small
    else if getUint32 first≠blockMagic then .error (.magic (getUint32 first))
    else
      let total := blockHeaderSize+(getUint32 (first.drop 8)).toNat
      readPages s start ((total+chunkSize-1)/chunkSize-1) 1 (copyAt (List.replicate total 0) 0 first)

section Header
variable {b : Bytes}

lemma getUint32_append (n : UInt32) (b : Bytes) : getUint32 (be32 n++b) = n := by
  have hlen : (be32 n).length = 4 := beBytes_length ..
  rw [getUint32,← hlen,List.take_left,be32,beNat_beBytes (n.toNat_lt.trans_eq (by norm_num)),
    UInt32.ofNat_toNat]

lemma toInt64_append (i : Int64) (b : Bytes) :
    (UInt64.ofNat (beNat ((beBytes 8 i.toUInt64.toNat++b).take 8))).toInt64 = i := by
  rw [List.take_left' (beBytes_length ..),
    beNat_beBytes (i.toUInt64.toNat_lt.trans_eq (by norm_num)),UInt64.ofNat_toNat]
  rfl

lemma drop_be32 (n : UInt32) (k : ℕ) (b : Bytes) : (be32 n++b).drop (k+4) = b.drop k := by
  have hlen : (be32 n).length = 4 := beBytes_length ..
  rw [Nat.add_comm,← List.drop_drop,List.drop_left' hlen]

lemma drop_be64 (n k : ℕ) (b : Bytes) : (beBytes 8 n++b).drop (k+8) = b.drop k := by
  rw [Nat.add_comm,← List.drop_drop,List.drop_left' (beBytes_length ..)]

lemma length_encodeHeader (h : BlockHeader) : (encodeHeader h).length = blockHeaderSize := by
  simp [encodeHeader,be32,beBytes_length,blockHeaderSize]

lemma decodeHeader_append (h : BlockHeader) (b : Bytes) : decodeHeader (encodeHeader h++b) = h := by
  obtain ⟨magic,uncompressed,compressed,count,first,last⟩ := h
  simp only [decodeHeader,encodeHeader,List.append_assoc,BlockHeader.mk.injEq]
  refine ⟨getUint32_append ..,?_,?_,?_,?_,?_⟩
  · rw [drop_be32 _ 0]
    exact getUint32_append ..
  · rw [drop_be32 _ 4,drop_be32 _ 0]
    exact getUint32_append ..
  · rw [drop_be32 _ 8,drop_be32 _ 4,drop_be32 _ 0]
    exact getUint32_append ..
  · rw [drop_be32 _ 12,drop_be32 _ 8,drop_be32 _ 4,drop_be32 _ 0]
    exact toInt64_append ..
  · rw [drop_be32 _ 20,drop_be32 _ 16,drop_be32 _ 12,drop_be32 _ 8,drop_be64 _ 0]
    exact toInt64_append ..

end Header

section Decompress
variable {inflate : Inflate} {b spare : Bytes}

/-- The first byte behind the payload, without the cut to 32 bits. -/
def payloadEnd (b : Bytes) : ℕ := blockHeaderSize+(decodeHeader b).compressedLength.toNat

lemma toNat_stop (b : Bytes) : (32+(decodeHeader b).compressedLength).toNat = payloadEnd b%2^32 :=
  UInt32.toNat_add ..

lemma decompressBlock_eq (hlen : blockHeaderSize ≤ b.length)
    (hmagic : (decodeHeader b).magic = blockMagic) :
    decompressBlock inflate b spare =
      if payloadEnd b < 2^32 ∧ payloadEnd b ≤ (b++spare).length then
        (readFull inflate (((b++spare).take (payloadEnd b)).drop blockHeaderSize)
          (decodeHeader b).uncompressedLength.toNat).map (·,decodeHeader b)
      else .error .panic := by
  have hsum : payloadEnd b = 32+(decodeHeader b).compressedLength.toNat := rfl
  have hlow := (decodeHeader b).compressedLength.toNat_lt
  have hsize : blockHeaderSize = 32 := rfl
  rw [decompressBlock,if_neg (not_lt.mpr hlen),if_neg (not_not.mpr hmagic)]
  simp only [toNat_stop]
  by_cases hsmall : payloadEnd b < 2^32
  · rw [Nat.mod_eq_of_lt hsmall]
    by_cases hin : payloadEnd b ≤ (b++spare).length
    · rw [if_neg (by omega),if_pos ⟨hsmall,hin⟩]
    · rw [if_pos (.inr (not_le.mp hin)),if_neg fun h => hin h.2]
  · rw [if_pos (.inl (by omega)),if_neg fun h => hsmall h.1]

lemma decompressBlock_compressBlock (d : Deflate) (raw : Bytes) (header : BlockHeader)
    (hraw : raw.length < 2^31) (spare : Bytes) :
    decompressBlock d.inflate (compressBlock d.compress raw header).1 spare =
      .ok (raw,(compressBlock d.compress raw header).2) := by
  have hbound := d.bounded raw hraw
  have hword : UInt32.size = 2^32 := rfl
  set filled := (compressBlock d.compress raw header).2 with hfilled
  have hblock : (compressBlock d.compress raw header).1 = encodeHeader filled++d.compress raw := rfl
  have hheader : decodeHeader (encodeHeader filled++d.compress raw) = filled := decodeHeader_append ..
  have hcompressed : filled.compressedLength.toNat = (d.compress raw).length :=
    UInt32.toNat_ofNat_of_lt' (by omega)
  have hraw' : filled.uncompressedLength.toNat = raw.length := UInt32.toNat_ofNat_of_lt' (by omega)
  have hend : payloadEnd (encodeHeader filled++d.compress raw) =
    (encodeHeader filled++d.compress raw).length := by
    rw [payloadEnd,hheader,hcompressed,List.length_append,length_encodeHeader]
  have hlen : (encodeHeader filled++d.compress raw).length = 32+(d.compress raw).length := by
    rw [List.length_append,length_encodeHeader]
    rfl
  rw [hblock,decompressBlock_eq (by rw [hlen]; exact Nat.le_add_right ..) (by rw [hheader]; rfl),hend,
    if_pos ⟨by omega,by simp⟩,List.take_left,List.drop_left' (length_encodeHeader _),hheader,hraw',
      readFull,d.lossless]
  simp [padTo]
  rfl

end Decompress

section Stored

/-- A block of DEFLATE that stores its bytes: the mark of the last block, the length with the low byte
first and its complement, and the bytes. -/
def storedBlock (last : Bool) (b : Bytes) : Bytes :=
  (if last then 1 else 0)::.ofNat b.length::.ofNat (b.length/256)::
    .ofNat (65535-b.length)::.ofNat ((65535-b.length)/256)::b

/-- A stream of stored blocks, which DEFLATE falls back to. -/
def storeBlocks (raw : Bytes) : Bytes :=
  if raw.length ≤ 65535 then storedBlock true raw
  else storedBlock false (raw.take 65535)++storeBlocks (raw.drop 65535)
termination_by raw.length
decreasing_by
  simp only [List.length_drop]
  omega

/-- The blocks are read one by one, at most so many; one of another kind is not understood. -/
def inflateBlocks : ℕ → Inflate
  | fuel+1,mark::a::b::c::d::rest =>
    let n := a.toNat+256*b.toNat
    if 1 < mark ∨ c.toNat+256*d.toNat+n≠65535 then ([],.corrupt)
    else if rest.length < n then (rest,.unexpectedEOF)
    else if mark = 1 then (rest.take n,.eof)
    else
      let more := inflateBlocks fuel (rest.drop n)
      (rest.take n++more.1,more.2)
  | _,_ => ([],.unexpectedEOF)

def inflateStored : Inflate := fun b => inflateBlocks b.length b

lemma inflateBlocks_stored (last : Bool) {b : Bytes} (hb : b.length ≤ 65535) (rest : Bytes)
    (fuel : ℕ) :
    inflateBlocks (fuel+1) (storedBlock last b++rest) = if last then (b,.eof)
      else (b++(inflateBlocks fuel rest).1,(inflateBlocks fuel rest).2) := by
  have hlow : (UInt8.ofNat b.length).toNat+256*(UInt8.ofNat (b.length/256)).toNat = b.length := by
    simp only [UInt8.toNat_ofNat']
    omega
  have hhigh : (UInt8.ofNat (65535-b.length)).toNat+256*(UInt8.ofNat ((65535-b.length)/256)).toNat =
      65535-b.length := by
    simp only [UInt8.toNat_ofNat']
    omega
  simp only [storedBlock,List.cons_append,inflateBlocks,hlow,hhigh]
  rw [if_neg,if_neg (by simp),List.take_left,List.drop_left]
  · cases last <;> simp
  · cases last <;> simp <;> omega

lemma inflateBlocks_storeBlocks (raw : Bytes) (fuel : ℕ) (h : raw.length < fuel) :
    inflateBlocks fuel (storeBlocks raw) = (raw,.eof) := by
  obtain ⟨fuel,rfl⟩ := Nat.exists_eq_succ_of_ne_zero (Nat.ne_zero_of_lt h)
  fun_induction storeBlocks raw generalizing fuel with
  | case1 raw hraw => simpa using inflateBlocks_stored true hraw [] fuel
  | case2 raw hraw ih =>
    have hdrop : (raw.drop 65535).length < fuel := by
      rw [List.length_drop]
      omega
    obtain ⟨fuel,rfl⟩ := Nat.exists_eq_succ_of_ne_zero (Nat.ne_zero_of_lt hdrop)
    rw [Nat.succ_eq_add_one,inflateBlocks_stored false (by simp),ih fuel hdrop]
    simp

lemma length_storeBlocks (raw : Bytes) :
    raw.length < (storeBlocks raw).length ∧
      (storeBlocks raw).length ≤ raw.length+raw.length/13107+5 := by
  fun_induction storeBlocks raw with
  | case1 raw hraw =>
    simp only [storedBlock,List.length_cons]
    omega
  | case2 raw hraw ih =>
    simp only [List.length_append,storedBlock,List.length_cons,List.length_take,
      List.length_drop] at ih ⊢
    omega

/-- DEFLATE without compression. -/
def storing : Deflate where
  compress := storeBlocks
  inflate := inflateStored
  lossless raw := inflateBlocks_storeBlocks raw _ (length_storeBlocks raw).1
  bounded raw h := by
    have := (length_storeBlocks raw).2
    omega

end Stored
section Corrupt
variable (inflate : Inflate) (b spare : Bytes)

/-- The call does not panic, and what it returns was all inflated from the payload, which is within
the block. -/
structure Rejects : Prop where
  safe : decompressBlock inflate b spare≠.error .panic
  inflated : ∀ data header, decompressBlock inflate b spare = .ok (data,header) →
    payloadEnd b ≤ b.length ∧ data.length = header.uncompressedLength.toNat ∧
      data <+: (inflate ((b.take (payloadEnd b)).drop blockHeaderSize)).1

/-- The payload is within the block and inflates to enough bytes. -/
def Whole : Prop :=
  payloadEnd b ≤ b.length ∧ (decodeHeader b).uncompressedLength.toNat ≤
    (inflate ((b.take (payloadEnd b)).drop blockHeaderSize)).1.length

/-- What is taken for the payload is within the capacity, and is found corrupt before there are
enough bytes. -/
def Refused : Prop :=
  payloadEnd b ≤ (b++spare).length ∧
    (inflate (((b++spare).take (payloadEnd b)).drop blockHeaderSize)).1.length <
      (decodeHeader b).uncompressedLength.toNat ∧
    (inflate (((b++spare).take (payloadEnd b)).drop blockHeaderSize)).2 = .corrupt

lemma length_padTo_take (n : ℕ) (out : Bytes) : (padTo n (out.take n)).length = n := by
  rw [padTo_length]
  exact max_eq_left (List.length_take_le ..)

lemma padTo_take_isPrefix {n : ℕ} {out : Bytes} : padTo n (out.take n) <+: out ↔ n ≤ out.length := by
  constructor
  · intro h
    exact (length_padTo_take n out).symm.trans_le h.length_le
  · intro h
    rw [padTo_of_length (List.length_take_of_le h)]
    exact List.take_prefix ..

/-- Corrupt blocks are rejected exactly if the length in the header is right, up to what DEFLATE
itself finds corrupt. -/
theorem rejects_iff : Rejects inflate b spare ↔
    b.length < blockHeaderSize ∨ (decodeHeader b).magic≠blockMagic ∨
      payloadEnd b < 2^32 ∧ (Whole inflate b ∨ Refused inflate b spare) := by
  by_cases hlen : b.length < blockHeaderSize
  · have hsmall : decompressBlock inflate b spare = .error .small := if_pos hlen
    exact ⟨fun _ => .inl hlen,fun _ => ⟨by rw [hsmall]; nofun,by rw [hsmall]; nofun⟩⟩
  by_cases hmagic : (decodeHeader b).magic = blockMagic
  · have hcases : decompressBlock inflate b spare = _ := decompressBlock_eq (not_lt.mp hlen) hmagic
    set payload := ((b++spare).take (payloadEnd b)).drop blockHeaderSize with hpayload
    set n := (decodeHeader b).uncompressedLength.toNat with hn
    simp only [hlen,hmagic,ne_eq,not_true,false_or]
    by_cases hin : payloadEnd b < 2^32 ∧ payloadEnd b ≤ (b++spare).length
    · rw [if_pos hin,readFull] at hcases
      by_cases hcorrupt : (inflate payload).1.length < n ∧ (inflate payload).2 = .corrupt
      · rw [if_pos hcorrupt] at hcases
        exact ⟨fun _ => ⟨hin.1,.inr ⟨hin.2,hcorrupt⟩⟩,fun _ =>
          ⟨by rw [hcases]; nofun,by rw [hcases]; nofun⟩⟩
      · rw [if_neg hcorrupt] at hcases
        have hwithin (h : payloadEnd b ≤ b.length) :
          payload = (b.take (payloadEnd b)).drop blockHeaderSize := by
          rw [hpayload,List.take_append_of_le_length h]
        constructor
        · intro h
          obtain ⟨hle,-,hbegins⟩ := h.inflated _ _ hcases
          rw [← hwithin hle,padTo_take_isPrefix] at hbegins
          exact ⟨hin.1,.inl ⟨hle,by rwa [← hwithin hle]⟩⟩
        · rintro ⟨-,⟨hle,henough⟩ | hrefused⟩
          · refine ⟨by rw [hcases]; nofun,fun data header hok => ?_⟩
            cases hok.symm.trans hcases
            rw [← hwithin hle] at henough ⊢
            exact ⟨hle,length_padTo_take ..,padTo_take_isPrefix.mpr henough⟩
          · exact absurd hrefused.2 hcorrupt
    · rw [if_neg hin] at hcases
      refine ⟨fun h => absurd hcases h.safe,?_⟩
      rintro ⟨hsmall,⟨hle,-⟩ | hrefused⟩
      · exact absurd ⟨hsmall,hle.trans (by simp)⟩ hin
      · exact absurd ⟨hsmall,hrefused.1⟩ hin
  · have hbad : decompressBlock inflate b spare = .error (.magic (decodeHeader b).magic) := by
      rw [decompressBlock,if_neg hlen,if_pos hmagic]
    exact ⟨fun _ => .inr (.inl hmagic),fun _ => ⟨by rw [hbad]; nofun,by rw [hbad]; nofun⟩⟩

/-- A block of one header that promises a byte of payload. -/
def shortBlock : Bytes := encodeHeader ⟨blockMagic,1,1,0,0,0⟩

/-- A payload that is missing makes the call panic; one that ends too early gives zeros that nothing
was inflated to. -/
theorem corrupt_accepted :
    decompressBlock (fun _ => ([],.unexpectedEOF)) shortBlock [] = .error .panic ∧
      decompressBlock (fun _ => ([],.unexpectedEOF)) (shortBlock++[0]) [] =
        .ok ([0],⟨blockMagic,1,1,0,0,0⟩) := by
  decide +kernel

/-- One byte in a stored block. -/
def byteBlock : Bytes := encodeHeader ⟨blockMagic,1,6,0,0,0⟩++storedBlock true [7]

/-- A payload that inflates to the promised byte. -/
theorem rejects_stored : Rejects inflateStored byteBlock [] :=
  (rejects_iff _ _ _).mpr (.inr (.inr ⟨by decide +kernel,.inl ⟨by decide +kernel,by decide +kernel⟩⟩))

end Corrupt

section Pages
variable {s s' : PageStore} {start : ℕ} {data : Bytes}

/-- What `WriteBlock` leaves: a chunk on each page of the run, and the other pages as they were. -/
structure Written (s s' : PageStore) (start : ℕ) (data : Bytes) : Prop where
  live : ∀ x, s'.Live x ↔ s.Live x
  chunk : ∀ i, i*chunkSize < data.length →
    s'.view (start+i) = padTo chunkSize ((data.drop (i*chunkSize)).take chunkSize)
  other : ∀ x, (∀ i, i*chunkSize < data.length → x≠start+i) → s'.view x = s.view x

lemma writePage_ok {id : ℕ} {b : Bytes} (h : s.Live id) (hb : b.length = dataPageBodySize) :
    ∃ s', s.writePage id b = (.ok (),s') ∧ (∀ x, s'.Live x ↔ s.Live x) ∧
      ∀ x, s'.view x = if x = id then b else s.view x := by
  rw [PageStore.writePage,if_neg (not_not.mpr h),if_neg (not_not.mpr hb)]
  cases ht : s.txn with
  | none =>
    refine ⟨_,rfl,fun x => Iff.rfl,fun x => ?_⟩
    simp [PageStore.view,ht,Function.update_apply]
  | some t =>
    refine ⟨_,rfl,fun x => Iff.rfl,fun x => ?_⟩
    by_cases hx : x = id <;> simp [PageStore.view,ht,hx]

lemma writeBlock_written (h : ∀ i, i*chunkSize < data.length → s.Live (start+i)) :
    ∃ s', writeBlock s start data = (.ok (),s') ∧ Written s s' start data := by
  induction hn : data.length using Nat.strong_induction_on generalizing s start data with
  | _ n ih =>
    rw [writeBlock]
    by_cases hnil : data = []
    · rw [if_pos hnil]
      exact ⟨s,rfl,fun _ => Iff.rfl,fun i hi => by simp [hnil] at hi,fun _ _ => rfl⟩
    · have hpos := List.length_pos_of_ne_nil hnil
      have hchunk : chunkSize = 4084 := rfl
      obtain ⟨s1,hwrite,hlive,hview⟩ := writePage_ok (b := padTo chunkSize (data.take chunkSize))
        (h 0 (by omega)) (length_padTo_take ..)
      have hlater (i : ℕ) : i*chunkSize < (data.drop chunkSize).length ↔
        (i+1)*chunkSize < data.length := by
        rw [List.length_drop,Nat.succ_mul]
        omega
      have hshift (i : ℕ) : start+1+i = start+(i+1) := by omega
      obtain ⟨s2,hblock,hwritten⟩ :=
        @ih (data.drop chunkSize).length (by rw [List.length_drop]; omega) s1 (start+1)
        (data.drop chunkSize) (fun i hi => (hlive _).mpr (hshift i ▸ h (i+1) ((hlater i).mp hi))) rfl
      rw [if_neg hnil,← Nat.add_zero start,hwrite]
      refine ⟨s2,hblock,fun x => (hwritten.live x).trans (hlive x),fun i hi => ?_,fun x hx => ?_⟩
      · cases i with
        | zero =>
          rw [hwritten.other _ fun i _ => by omega,hview,if_pos rfl]
          simp
        | succ i =>
          have hi' := hwritten.chunk i ((hlater i).mpr hi)
          rw [hshift] at hi'
          rw [Nat.add_zero,hi',List.drop_drop,Nat.succ_mul,Nat.add_comm chunkSize]
      · rw [hwritten.other x fun i hi => hshift i ▸ hx (i+1) ((hlater i).mp hi),hview,
          if_neg (hx 0 (by omega))]

lemma copyAt_chunk {i : ℕ} (hi : i*chunkSize < data.length) :
    copyAt (data.take (i*chunkSize)++List.replicate (data.length-i*chunkSize) 0) (i*chunkSize)
      (padTo chunkSize ((data.drop (i*chunkSize)).take chunkSize)) =
    data.take ((i+1)*chunkSize)++List.replicate (data.length-(i+1)*chunkSize) 0 := by
  set p := i*chunkSize with hp
  have hnext : (i+1)*chunkSize = p+chunkSize := Nat.succ_mul ..
  have hfront : (data.take p).length = p := List.length_take_of_le hi.le
  have hlen : (data.take p++List.replicate (data.length-p) 0).length = data.length := by
    rw [List.length_append,hfront,List.length_replicate]
    omega
  have hsrc : (padTo chunkSize ((data.drop p).take chunkSize)).take (data.length-p) =
    (data.drop p).take chunkSize := by
    by_cases hfull : chunkSize ≤ data.length-p
    · have hc : ((data.drop p).take chunkSize).length = chunkSize :=
        List.length_take_of_le (by rwa [List.length_drop])
      rw [padTo_of_length hc,List.take_of_length_le (by omega)]
    · have hc : ((data.drop p).take chunkSize).length = data.length-p := by
        rw [List.length_take,List.length_drop]
        omega
      rw [← hc,take_padTo]
  rw [copyAt,hlen,List.take_left' hfront,hsrc,length_padTo_take,hnext,← List.append_assoc,
    List.take_add,← List.drop_drop,
    List.drop_left' hfront,List.drop_replicate,Nat.sub_sub]

lemma readPages_eq (hlive : ∀ i, i*chunkSize < data.length → s.Live (start+i))
    (hchunk : ∀ i, i*chunkSize < data.length →
      s.view (start+i) = padTo chunkSize ((data.drop (i*chunkSize)).take chunkSize))
    (n i : ℕ) (hn : i+n = (data.length+chunkSize-1)/chunkSize) :
    readPages s start n i (data.take (i*chunkSize)++List.replicate (data.length-i*chunkSize) 0) =
      .ok data := by
  have hsize : chunkSize = 4084 := rfl
  induction n generalizing i with
  | zero =>
    have hall : data.length ≤ i*chunkSize := by
      rw [hsize] at hn ⊢
      omega
    rw [readPages,List.take_of_length_le hall,Nat.sub_eq_zero_of_le hall,List.replicate_zero,
      List.append_nil]
  | succ n ih =>
    have hi : i*chunkSize < data.length := by
      rw [hsize] at hn ⊢
      omega
    have hread : (s.readPage (start+i)).1 = .ok (s.view (start+i)) := by
      rw [PageStore.readPage,if_pos (hlive i hi)]
    rw [readPages,hread]
    simp only
    rw [hchunk i hi,copyAt_chunk hi]
    exact ih (i+1) (by omega)

lemma readBlock_written {header : BlockHeader} {payload : Bytes}
    (hdata : data = encodeHeader header++payload)
    (hmagic : header.magic = blockMagic) (hlength : header.compressedLength.toNat = payload.length)
    (hlive : ∀ i, i*chunkSize < data.length → s.Live (start+i)) (hw : Written s s' start data) :
    readBlock s' start = .ok data := by
  have hsize : chunkSize = 4084 := rfl
  have hheader := length_encodeHeader header
  have hlen : data.length = 32+payload.length := by
    rw [hdata,List.length_append,hheader]
    rfl
  have hlive' (i : ℕ) (hi : i*chunkSize < data.length) : s'.Live (start+i) := (hw.live _).mpr (hlive i hi)
  have hread : (s'.readPage start).1 = .ok (s'.view start) := by
    rw [PageStore.readPage,if_pos]
    exact hlive' 0 (by omega)
  have hview : s'.view start = padTo chunkSize (data.take chunkSize) := by
    simpa using hw.chunk 0 (by omega)
  obtain ⟨rest,hfirst⟩ : ∃ rest, s'.view start = encodeHeader header++rest := by
    refine ⟨payload.take (chunkSize-32)++List.replicate (chunkSize-(data.take chunkSize).length) 0,?_⟩
    rw [hview,padTo,hdata,List.take_append,hheader,List.take_of_length_le (by rw [hheader]; decide),
      List.append_assoc]
    rfl
  have hdecode := decodeHeader_append header rest
  have htotal : blockHeaderSize+(getUint32 ((encodeHeader header++rest).drop 8)).toNat = data.length := by
    have hcompressed : getUint32 ((encodeHeader header++rest).drop 8) = header.compressedLength :=
      congrArg BlockHeader.compressedLength hdecode
    rw [hcompressed,hlength,hlen]
    rfl
  have hmagic' : getUint32 (encodeHeader header++rest) = blockMagic :=
    (congrArg BlockHeader.magic hdecode).trans hmagic
  have hcopy := copyAt_chunk (show 0*chunkSize < data.length by omega)
  simp only [Nat.zero_mul,List.take_zero,List.nil_append,Nat.sub_zero,List.drop_zero] at hcopy
  rw [readBlock,hread]
  simp only [hfirst]
  rw [if_neg (by rw [List.length_append,hheader]; omega),if_neg (not_not.mpr hmagic'),htotal,
    ← hfirst,hview,hcopy]
  exact readPages_eq hlive' hw.chunk _ 1 (by rw [hsize]; omega)

/-- A block is written over the pages of the run, and from them the bytes and the header are read again. -/
theorem block_round_trip (d : Deflate) (raw : Bytes) (header : BlockHeader)
    (hraw : raw.length < 2^31) (s : PageStore) (start : ℕ)
    (hlive : ∀ i, i*chunkSize < (compressBlock d.compress raw header).1.length → s.Live (start+i)) :
    ∃ s' block filled, writeBlock s start (compressBlock d.compress raw header).1 = (.ok (),s') ∧
      readBlock s' start = .ok block ∧
      decompressBlock d.inflate block [] = .ok (raw,filled) ∧
        filled = (compressBlock d.compress raw header).2 ∧
      filled.recordCount = header.recordCount ∧ filled.minTimestamp = header.minTimestamp ∧
        filled.maxTimestamp = header.maxTimestamp ∧
      ∀ x, (∀ i, i*chunkSize < (compressBlock d.compress raw header).1.length → x≠start+i) →
        s'.view x = s.view x := by
  obtain ⟨s',hwrite,hwritten⟩ := writeBlock_written hlive
  have hbound := d.bounded raw hraw
  have hword : UInt32.size = 2^32 := rfl
  have hread := readBlock_written
    (show _ = encodeHeader (compressBlock d.compress raw header).2++_ from rfl) rfl
    (UInt32.toNat_ofNat_of_lt' (by omega)) hlive hwritten
  exact ⟨s',_,_,hwrite,hread,decompressBlock_compressBlock d raw header hraw [],rfl,rfl,rfl,rfl,
    hwritten.other⟩

/-- Bytes that do not fit on one page. -/
def longRaw : Bytes := List.replicate 5000 7

lemma length_longRaw (header : BlockHeader) :
    (compressBlock storing.compress longRaw header).1.length = 5037 := by
  have hraw : longRaw.length = 5000 := List.length_replicate ..
  have hstored : storeBlocks longRaw = storedBlock true longRaw := by
    rw [storeBlocks,if_pos (by rw [hraw]; decide)]
  simp [compressBlock,storing,hstored,storedBlock,length_encodeHeader,blockHeaderSize,hraw]

/-- A block over two pages. -/
theorem block_round_trip_stored :
    ∃ s' block filled, writeBlock ⟨4,[],fun _ => zeroBody,none⟩ 2
        (compressBlock storing.compress longRaw ⟨0,0,0,1,5,6⟩).1 = (.ok (),s') ∧
      readBlock s' 2 = .ok block ∧
      decompressBlock storing.inflate block [] = .ok (longRaw,filled) := by
  have hlive (i : ℕ)
      (hi : i*chunkSize < (compressBlock storing.compress longRaw ⟨0,0,0,1,5,6⟩).1.length) :
      PageStore.Live ⟨4,[],fun _ => zeroBody,none⟩ (2+i) := by
    have hsize : chunkSize = 4084 := rfl
    rw [length_longRaw,hsize] at hi
    obtain rfl | rfl : i = 0 ∨ i = 1 := by omega
    all_goals decide
  have hraw : longRaw.length < 2^31 := by
    rw [longRaw,List.length_replicate]
    decide
  obtain ⟨s',block,filled,hwrite,hread,hinflated,-⟩ :=
    block_round_trip storing longRaw ⟨0,0,0,1,5,6⟩ hraw _ 2 hlive
  exact ⟨s',block,filled,hwrite,hread,hinflated⟩

end Pages

end Plomvix.Logs.Compress
