import Plomvix.Lib.BitStream

/-! The compressed form of a series: timestamps by the change of their distances, values by the bits
that differ from the last one. Bits are written to a buffer that grows, and read back by
position. -/
namespace Plomvix.Metrics
open Lib Plomvix.Lib.BitStream

/-- A shift by any number of places, which a shift by 64 or more makes zero. -/
def shiftLeft (x : UInt64) (n : ℕ) : UInt64 := UInt64.ofNat (x.toNat <<< n)

def shiftRight (x : UInt64) (n : ℕ) : UInt64 := UInt64.ofNat (x.toNat >>> n)

/-- Values are the bits of a `float64`. -/
structure GorillaEncoder where
  buf : Bytes
  bitPos : ℕ
  prevTime : Int64
  prevDelta : Int64
  prevValue : UInt64
  prevLeading : ℕ
  prevTrailing : ℕ
  hasPrevTime : Bool
  hasPrevValue : Bool

def newGorillaEncoder (cap : ℕ) : GorillaEncoder := ⟨List.replicate cap 0,0,0,0,0,0,0,false,false⟩

def leadingStep (w : ℕ) (p : ℕ × UInt64) : ℕ × UInt64 :=
  if shiftRight p.2 (64-w) = 0 then (p.1+w,shiftLeft p.2 w) else p

def leadingZeros64 (x : UInt64) : ℕ :=
  if x = 0 then 64
  else
    let p := leadingStep 2 (leadingStep 4 (leadingStep 8 (leadingStep 16 (leadingStep 32 (0,x)))))
    if shiftRight p.2 63 = 0 then p.1+1 else p.1

/-- The loop, which ends after 64 rounds at the latest. -/
def trailingLoop : ℕ → UInt64 → ℕ
  | 0,_ => 0
  | fuel+1,x => if x &&& 1 = 0 then trailingLoop fuel (x >>> 1)+1 else 0

def trailingZeros64 (x : UInt64) : ℕ := if x = 0 then 64 else trailingLoop 64 x

namespace GorillaEncoder

def bytes (e : GorillaEncoder) : Bytes := e.buf.take ((e.bitPos+7)/8)

def ensureCapacity (bits : ℕ) (e : GorillaEncoder) : GorillaEncoder :=
  let needed := (e.bitPos+bits+7)/8
  if needed ≤ e.buf.length then e else { e with buf := e.buf++List.replicate (needed*2-e.buf.length) 0 }

def writeBit (bit : Bool) (e : GorillaEncoder) : GorillaEncoder :=
  let e := e.ensureCapacity 1
  { e with
    buf := if bit then e.buf.modify (e.bitPos/8) (· ||| 1 <<< UInt8.ofNat (7-e.bitPos%8)) else e.buf
    bitPos := e.bitPos+1 }

def writeFrom (value : UInt64) : ℕ → GorillaEncoder → GorillaEncoder
  | 0,e => e
  | i+1,e => writeFrom value i (e.writeBit (shiftRight value i &&& 1 = 1))

def writeBits (value : UInt64) (nBits : ℕ) (e : GorillaEncoder) : GorillaEncoder :=
  writeFrom value nBits (e.ensureCapacity nBits)

/-- The change of the distance, by its size in 1, 9, 12, 16 or 36 bits. -/
def writeDod (dod : Int64) (e : GorillaEncoder) : GorillaEncoder :=
  if dod = 0 then e.writeBit false
  else if -63 ≤ dod ∧ dod ≤ 64 then (e.writeBits 0x02 2).writeBits (dod.toUInt64 &&& 0x7F) 7
  else if -255 ≤ dod ∧ dod ≤ 256 then (e.writeBits 0x06 3).writeBits (dod.toUInt64 &&& 0x1FF) 9
  else if -2047 ≤ dod ∧ dod ≤ 2048 then (e.writeBits 0x0E 4).writeBits (dod.toUInt64 &&& 0xFFF) 12
  else (e.writeBits 0x0F 4).writeBits dod.toUInt64 32

def writeTimestamp (ts : Int64) (e : GorillaEncoder) : GorillaEncoder :=
  if e.hasPrevTime then
    let delta := ts-e.prevTime
    { e.writeDod (delta-e.prevDelta) with prevTime := ts, prevDelta := delta }
  else { e.writeBits ts.toUInt64 64 with prevTime := ts, prevDelta := 0, hasPrevTime := true }

/-- The bits that differ, within the last window or with a window of their own. -/
def writeXor (xor : UInt64) (e : GorillaEncoder) : GorillaEncoder :=
  let leading := leadingZeros64 xor
  let trailing := trailingZeros64 xor
  if e.prevLeading ≤ leading ∧ e.prevTrailing ≤ trailing then
    let meaningfulLen := 64-e.prevLeading-e.prevTrailing
    (e.writeBit false).writeBits (shiftRight xor e.prevTrailing &&& (shiftLeft 1 meaningfulLen-1))
      meaningfulLen
  else
    let meaningfulLen := 64-leading-trailing
    { (((e.writeBit true).writeBits (UInt64.ofNat leading) 5).writeBits (UInt64.ofNat meaningfulLen)
      6).writeBits
        (shiftRight xor trailing &&& (shiftLeft 1 meaningfulLen-1)) meaningfulLen with
      prevLeading := leading, prevTrailing := trailing }

def writeFloat (val : UInt64) (e : GorillaEncoder) : GorillaEncoder :=
  if e.hasPrevValue then
    let xor := val ^^^ e.prevValue
    { (if xor = 0 then e.writeBit false else (e.writeBit true).writeXor xor) with prevValue := val }
  else { e.writeBits val 64 with prevValue := val, hasPrevValue := true }

end GorillaEncoder

/-- The window of the decoder is computed from what it reads. -/
structure GorillaDecoder where
  buf : Bytes
  bitPos : ℕ
  prevTime : Int64
  prevDelta : Int64
  prevValue : UInt64
  prevLeading : ℤ
  prevTrailing : ℤ
  hasPrevTime : Bool
  hasPrevValue : Bool

def newGorillaDecoder (data : Bytes) : GorillaDecoder := ⟨data,0,0,0,0,0,0,false,false⟩

/-- A call of the decoder; none is a panic, at the end of the buffer or in a shift by a negative number. -/
abbrev Read (α : Type) := StateT GorillaDecoder Option α

namespace GorillaDecoder

def readBit : Read Bool := fun d => do
  let byte ← d.buf[d.bitPos/8]?
  return (byte >>> UInt8.ofNat (7-d.bitPos%8) &&& 1 = 1,{ d with bitPos := d.bitPos+1 })

def readFrom (v : UInt64) : ℕ → Read UInt64
  | 0 => return v
  | n+1 => do
    let bit ← readBit
    readFrom (v <<< 1 ||| (if bit then 1 else 0)) n

/-- A negative number of bits is none. -/
def readBits (nBits : ℤ) : Read UInt64 := readFrom 0 nBits.toNat

def readDod : Read Int64 := do
  if ← readBit then
    if ← readBit then
      if ← readBit then
        if ← readBit then
          let dod := (← readBits 32).toInt64
          return if 0x7FFFFFFF < dod then dod-0x100000000 else dod
        else
          let dod := (← readBits 12).toInt64
          return if 2048 < dod then dod-4096 else dod
      else
        let dod := (← readBits 9).toInt64
        return if 256 < dod then dod-512 else dod
    else
      let dod := (← readBits 7).toInt64
      return if dod &&& 0x40≠0 then dod-128 else dod
  else return 0

def readTimestamp : Read Int64 := do
  if (← get).hasPrevTime then
    let dod ← readDod
    let d ← get
    let delta := dod+d.prevDelta
    let ts := d.prevTime+delta
    set { d with prevDelta := delta, prevTime := ts }
    return ts
  else
    let ts := (← readBits 64).toInt64
    modify fun d => { d with prevTime := ts, prevDelta := 0, hasPrevTime := true }
    return ts

def shiftBy (x : UInt64) (n : ℤ) : Read UInt64 :=
  if n < 0 then StateT.lift none else return shiftLeft x n.toNat

def readXor : Read UInt64 := do
  if ← readBit then
    let leading := (← readBits 5).toNat
    let meaningfulLen := (← readBits 6).toNat
    let trailing : ℤ := 64-leading-meaningfulLen
    let xor ← shiftBy (← readBits meaningfulLen) trailing
    modify fun d => { d with prevLeading := leading, prevTrailing := trailing }
    return xor
  else
    let d ← get
    shiftBy (← readBits (64-d.prevLeading-d.prevTrailing)) d.prevTrailing

def readFloat : Read UInt64 := do
  if (← get).hasPrevValue then
    let val ← if ← readBit then do
        let xor ← readXor
        pure ((← get).prevValue ^^^ xor)
      else do pure (← get).prevValue
    modify fun d => { d with prevValue := val }
    return val
  else
    let val ← readBits 64
    modify fun d => { d with prevValue := val, hasPrevValue := true }
    return val

end GorillaDecoder

def WrittenBits (e : GorillaEncoder) (bits : List Bool) : Prop := e.bitPos = bits.length ∧ Holds e.buf bits

/-- These bits are written, and nothing else is changed. -/
structure Puts (e e' : GorillaEncoder) (bits : List Bool) : Prop where
  same : e' = { e with buf := e'.buf, bitPos := e'.bitPos }
  written : ∀ l, WrittenBits e l → WrittenBits e' (l++bits)

def Takes {α : Type} (r : Read α) (bits : List Bool) (a : α) : Prop :=
  ∀ d : GorillaDecoder, Ahead d.buf d.bitPos bits → r d = some (a,{ d with
    bitPos := d.bitPos+bits.length })

section Encoder
variable {e e' e'' : GorillaEncoder} {bits bits' : List Bool}

lemma Puts.trans (h : Puts e e' bits) (h' : Puts e' e'' bits') : Puts e e'' (bits++bits') := by
  refine ⟨?_,fun l hl => ?_⟩
  · rw [h'.same,h.same]
  · rw [← List.append_assoc]
    exact h'.written _ (h.written l hl)

lemma written_new (cap : ℕ) : WrittenBits (newGorillaEncoder cap) [] := ⟨rfl,holds_zeros cap⟩

lemma puts_ensureCapacity (n : ℕ) (e : GorillaEncoder) : Puts e (e.ensureCapacity n) [] := by
  rw [GorillaEncoder.ensureCapacity]
  split_ifs
  · exact ⟨rfl,fun l hl => by rwa [List.append_nil]⟩
  · refine ⟨rfl,fun l hl => ?_⟩
    rw [List.append_nil]
    exact ⟨hl.1,hl.2.append_zeros _⟩

lemma length_ensureCapacity (n : ℕ) (e : GorillaEncoder) :
    (e.ensureCapacity n).bitPos+n ≤ 8*(e.ensureCapacity n).buf.length := by
  rw [GorillaEncoder.ensureCapacity]
  split_ifs with h
  · omega
  · simp only [List.length_append,List.length_replicate]
    omega

lemma puts_writeBit (bit : Bool) (e : GorillaEncoder) : Puts e (e.writeBit bit) [bit] := by
  have hcap := puts_ensureCapacity 1 e
  refine ⟨?_,fun l hl => ?_⟩
  · rw [GorillaEncoder.writeBit]
    simp only
    rw [hcap.same]
  · have hroom := length_ensureCapacity 1 e
    obtain ⟨hpos,hholds⟩ := hcap.written l hl
    rw [List.append_nil] at hpos hholds
    refine ⟨by rw [GorillaEncoder.writeBit,List.length_append,List.length_singleton,← hpos],?_⟩
    rw [hpos] at hroom
    cases bit with
    | false => exact hholds.snoc_false hroom
    | true =>
      simp only [GorillaEncoder.writeBit,if_true,hpos]
      exact hholds.snoc_true hroom

lemma testBit_shiftRight (value : UInt64) (i : ℕ) :
    decide (shiftRight value i &&& 1 = 1) = value.toNat.testBit i := by
  have hlt : value.toNat/2^i < 2^64 := (Nat.div_le_self _ _).trans_lt value.toNat_lt
  rw [Nat.testBit_eq_decide_div_mod_eq,decide_eq_decide,shiftRight,Nat.shiftRight_eq_div_pow,
    ← UInt64.toNat_inj,UInt64.toNat_and,
    UInt64.toNat_ofNat_of_lt' hlt,show (1 : UInt64).toNat = 1 from rfl,Nat.and_one_is_mod]

lemma puts_writeFrom (value : UInt64) (n : ℕ) (e : GorillaEncoder) :
    Puts e (GorillaEncoder.writeFrom value n e) (bitsOf n value.toNat) := by
  induction n generalizing e with
  | zero => exact ⟨rfl,fun l hl => by rwa [bitsOf,List.append_nil]⟩
  | succ n ih =>
    rw [GorillaEncoder.writeFrom,testBit_shiftRight]
    exact (puts_writeBit _ e).trans (ih _)

lemma puts_writeBits (value : UInt64) (n : ℕ) (e : GorillaEncoder) :
    Puts e (e.writeBits value n) (bitsOf n value.toNat) :=
  (puts_ensureCapacity n e).trans (puts_writeFrom value n _)

end Encoder

section Decoder
variable {α β : Type}

lemma bind_run {r : Read α} {f : α → Read β} {d d' : GorillaDecoder} {a : α}
    (h : r d = some (a,d')) : (r >>= f) d = f a d' := by
  change (r d).bind _ = _
  rw [h]
  rfl

lemma Takes.pure (a : α) : Takes (Pure.pure a) [] a := fun _ _ => rfl

lemma Takes.bind {r : Read α} {f : α → Read β} {bits bits' : List Bool} {a : α} {b : β}
    (h : Takes r bits a) (h' : Takes (f a) bits' b) :
    Takes (r >>= f) (bits++bits') b := by
  intro d hd
  obtain ⟨hd,hd'⟩ := ahead_append.mp hd
  rw [bind_run (h d hd),h' _ hd',List.length_append,Nat.add_assoc]

lemma testBit_byte (byte : UInt8) {k : ℕ} (h : k < 8) :
    decide (byte >>> UInt8.ofNat k &&& 1 = 1) = byte.toNat.testBit k := by
  have hk : (UInt8.ofNat k).toNat%8 = k := by
    rw [UInt8.toNat_ofNat_of_lt' (h.trans (by decide))]
    omega
  rw [Nat.testBit_eq_decide_div_mod_eq,decide_eq_decide,← UInt8.toNat_inj,UInt8.toNat_and,
    UInt8.toNat_shiftRight,hk,Nat.shiftRight_eq_div_pow,
    show (1 : UInt8).toNat = 1 from rfl,Nat.and_one_is_mod]

lemma takes_readBit (bit : Bool) : Takes GorillaDecoder.readBit [bit] bit := by
  rintro d ⟨hbit,-⟩
  obtain ⟨byte,hbyte,rfl⟩ := Option.map_eq_some_iff.mp hbit
  rw [GorillaDecoder.readBit,hbyte,← testBit_byte byte (show 7-d.bitPos%8 < 8 by omega)]
  rfl

lemma toNat_shiftLeft_or (v : UInt64) (bit : Bool) :
    (v <<< 1 ||| (if bit then 1 else 0)).toNat = (2*v.toNat+bit.toNat)%2^64 := by
  have hbit : (if bit then 1 else 0 : UInt64).toNat = bit.toNat := by cases bit <;> rfl
  have hlt : bit.toNat < 2^1 := Bool.toNat_lt bit
  have hshift : v.toNat <<< ((1 : UInt64).toNat%64)%2^64 = (v.toNat%2^63) <<< 1 := by
    rw [show (1 : UInt64).toNat%64 = 1 from rfl,Nat.shiftLeft_eq,Nat.shiftLeft_eq]
    omega
  rw [UInt64.toNat_or,UInt64.toNat_shiftLeft,hbit,hshift,← Nat.shiftLeft_add_eq_or_of_lt hlt,
    Nat.shiftLeft_eq]
  omega

lemma takes_readFrom (bits : List Bool) (v : UInt64) :
    Takes (GorillaDecoder.readFrom v bits.length) bits (UInt64.ofNat (readInto v.toNat bits)) := by
  induction bits generalizing v with
  | nil =>
    rw [show UInt64.ofNat (readInto v.toNat []) = v from UInt64.ofNat_toNat]
    exact .pure v
  | cons bit bits ih =>
    have hvalue : UInt64.ofNat (readInto v.toNat (bit::bits)) =
      UInt64.ofNat (readInto (v <<< 1 ||| (if bit then 1 else 0)).toNat bits) := by
      rw [toNat_shiftLeft_or,← UInt64.toNat_inj,UInt64.toNat_ofNat',UInt64.toNat_ofNat',readInto_mod]
      rfl
    rw [hvalue]
    exact Takes.bind (takes_readBit bit) (ih _)

lemma takes_readBits (n : ℕ) (value : ℕ) :
    Takes (GorillaDecoder.readBits n) (bitsOf n value) (UInt64.ofNat (value%2^n)) := by
  have h := takes_readFrom (bitsOf n value) 0
  rwa [length_bitsOf,show (0 : UInt64).toNat = 0 from rfl,readInto_bitsOf,zero_mul,zero_add] at h

lemma takes_word (v : UInt64) : Takes (GorillaDecoder.readBits 64) (bitsOf 64 v.toNat) v := by
  have h := takes_readBits 64 v.toNat
  rwa [Nat.mod_eq_of_lt v.toNat_lt,UInt64.ofNat_toNat] at h

end Decoder

section Changes
variable (dod : Int64)

def dodBits : List Bool :=
  if dod = 0 then [false]
  else if -63 ≤ dod ∧ dod ≤ 64 then [true,false]++bitsOf 7 dod.toUInt64.toNat
  else if -255 ≤ dod ∧ dod ≤ 256 then [true,true,false]++bitsOf 9 dod.toUInt64.toNat
  else if -2047 ≤ dod ∧ dod ≤ 2048 then [true,true,true,false]++bitsOf 12 dod.toUInt64.toNat
  else [true,true,true,true]++bitsOf 32 dod.toUInt64.toNat

/-- The low bits of a change as a number that is not negative. -/
def lowBits (w : ℕ) : Int64 := (UInt64.ofNat (dod.toUInt64.toNat%2^w)).toInt64

def signed (limit size f : Int64) : Int64 := if limit < f then f-size else f

def dodRead : Int64 :=
  if dod = 0 then 0
  else if -63 ≤ dod ∧ dod ≤ 64 then signed 63 128 (lowBits dod 7)
  else if -255 ≤ dod ∧ dod ≤ 256 then signed 256 512 (lowBits dod 9)
  else if -2047 ≤ dod ∧ dod ≤ 2048 then signed 2048 4096 (lowBits dod 12)
  else signed 0x7FFFFFFF 0x100000000 (lowBits dod 32)

lemma bitsOf_and (w : ℕ) (mask : UInt64) (hmask : mask.toNat = 2^w-1) :
    bitsOf w (dod.toUInt64 &&& mask).toNat = bitsOf w dod.toUInt64.toNat := by
  rw [UInt64.toNat_and,hmask,Nat.and_two_pow_sub_one_eq_mod,bitsOf_mod le_rfl]

lemma puts_writeDod (e : GorillaEncoder) : Puts e (e.writeDod dod) (dodBits dod) := by
  rw [GorillaEncoder.writeDod,dodBits]
  split_ifs
  · exact puts_writeBit false e
  · rw [← bitsOf_and dod 7 0x7F rfl]
    exact (puts_writeBits 0x02 2 e).trans (puts_writeBits _ 7 _)
  · rw [← bitsOf_and dod 9 0x1FF rfl]
    exact (puts_writeBits 0x06 3 e).trans (puts_writeBits _ 9 _)
  · rw [← bitsOf_and dod 12 0xFFF rfl]
    exact (puts_writeBits 0x0E 4 e).trans (puts_writeBits _ 12 _)
  · exact (puts_writeBits 0x0F 4 e).trans (puts_writeBits _ 32 _)

lemma takes_low (w : ℕ) (f : Int64 → Int64) :
    Takes (do return f (← GorillaDecoder.readBits w).toInt64) (bitsOf w dod.toUInt64.toNat)
      (f (lowBits dod w)) := by
  have h := (takes_readBits w dod.toUInt64.toNat).bind (f := fun v =>
    pure (f v.toInt64)) (.pure (f (lowBits dod w)))
  rwa [List.append_nil] at h

lemma and_highest : (fun f : Int64 => if f &&& 0x40≠0 then f-128 else f) (lowBits dod 7) =
      signed 63 128 (lowBits dod 7) := by
  have hall : ∀ n < 128, ((UInt64.ofNat n).toInt64 &&& 0x40≠0 ↔ 63 < (UInt64.ofNat n).toInt64) := by
    decide +kernel
  have hiff := hall (dod.toUInt64.toNat%2^7) (Nat.mod_lt _ (by decide))
  rw [signed,lowBits]
  exact if_congr hiff rfl rfl

lemma takes_readDod : Takes GorillaDecoder.readDod (dodBits dod) (dodRead dod) := by
  rw [dodBits,dodRead]
  split_ifs
  · exact (takes_readBit false).bind (.pure _)
  · rw [← and_highest]
    exact (takes_readBit true).bind ((takes_readBit false).bind (takes_low dod 7 fun f =>
      if f &&& 0x40≠0 then f-128 else f))
  · exact (takes_readBit true).bind
      ((takes_readBit true).bind ((takes_readBit false).bind (takes_low dod 9 (signed 256 512))))
  · exact (takes_readBit true).bind ((takes_readBit true).bind ((takes_readBit true).bind
      ((takes_readBit false).bind (takes_low dod 12 (signed 2048 4096)))))
  · exact (takes_readBit true).bind ((takes_readBit true).bind ((takes_readBit true).bind
      ((takes_readBit true).bind (takes_low dod 32 (signed 0x7FFFFFFF 0x100000000)))))

/-- A change that is not 64 and fits in 32 bits. -/
def Steady : Prop := dod≠64 ∧ -0x80000000 ≤ dod ∧ dod ≤ 0x7FFFFFFF

instance : Decidable (Steady dod) := by unfold Steady; infer_instance

lemma toInt_lowBits {w : ℕ} (h : w < 63) : (lowBits dod w).toInt = dod.toInt%2^w := by
  have hdvd : (2 : ℤ)^w ∣ 2^64 := pow_dvd_pow 2 (by omega)
  have hnat : ((dod.toUInt64.toNat : ℕ) : ℤ) = dod.toInt%2^64 := by
    change ((dod.toBitVec.toNat : ℕ) : ℤ) = dod.toBitVec.toInt%2^64
    have hlt : dod.toBitVec.toNat < 2^64 := dod.toBitVec.isLt
    rw [BitVec.toInt_eq_toNat_bmod,show (2 : ℤ)^64 = ((2^64 : ℕ) : ℤ) from rfl,Int.bmod_emod]
    omega
  have hlt : dod.toUInt64.toNat%2^w < 2^63 :=
    (Nat.mod_lt _ (by positivity)).trans (Nat.pow_lt_pow_right (by omega) h)
  have hlow : (lowBits dod w).toInt = ((dod.toUInt64.toNat%2^w : ℕ) : ℤ) := by
    change (UInt64.ofNat (dod.toUInt64.toNat%2^w)).toBitVec.toInt = _
    rw [BitVec.toInt_eq_toNat_of_lt]
    · exact congrArg _ (UInt64.toNat_ofNat_of_lt' (hlt.trans (by decide)))
    · change 2*(UInt64.ofNat (dod.toUInt64.toNat%2^w)).toNat < 2^64
      rw [UInt64.toNat_ofNat_of_lt' (hlt.trans (by decide))]
      omega
  rw [hlow,Int.natCast_mod,hnat]
  push_cast
  exact Int.emod_emod_of_dvd _ hdvd

lemma toInt_signed {limit size f : Int64} (hf : 0 ≤ f.toInt) (hsize : 0 ≤ size.toInt) :
    (signed limit size f).toInt = if limit.toInt < f.toInt then f.toInt-size.toInt else f.toInt := by
  have hf' := f.toInt_lt
  have hsize' := size.toInt_lt
  rw [signed]
  simp only [Int64.lt_iff_toInt_lt]
  split_ifs
  · rw [Int64.toInt_sub,Int.bmod_eq_of_le_mul_two (by omega) (by omega)]
  · rfl

lemma dodRead_eq_iff : dodRead dod = dod ↔ Steady dod := by
  have hread : ∀ {w : ℕ} {limit size : Int64} (lim sz : ℤ), w < 63 → limit.toInt = lim →
    size.toInt = sz → 0 ≤ sz →
      (signed limit size (lowBits dod w)).toInt = if lim < dod.toInt%2^w then dod.toInt%2^w-sz else
        dod.toInt%2^w := by
    rintro w limit size lim sz hw rfl rfl hsize
    rw [toInt_signed ?_ hsize,toInt_lowBits dod hw]
    rw [toInt_lowBits dod hw]
    exact Int.emod_nonneg _ (by positivity)
  have hsteady : Steady dod ↔ dod.toInt≠64 ∧ -2147483648 ≤ dod.toInt ∧ dod.toInt ≤ 2147483647 := by
    rw [Steady,ne_eq,← Int64.toInt_inj,Int64.le_iff_toInt_le,Int64.le_iff_toInt_le]
    rfl
  have hbounds : ∀ lo hi : Int64, lo ≤ dod ∧ dod ≤ hi ↔ lo.toInt ≤ dod.toInt ∧
    dod.toInt ≤ hi.toInt := fun lo hi => by
    rw [Int64.le_iff_toInt_le,Int64.le_iff_toInt_le]
  have h₇ : -63 ≤ dod ∧ dod ≤ 64 ↔ -63 ≤ dod.toInt ∧ dod.toInt ≤ 64 := hbounds ..
  have h₉ : -255 ≤ dod ∧ dod ≤ 256 ↔ -255 ≤ dod.toInt ∧ dod.toInt ≤ 256 := hbounds ..
  have h₁₂ : -2047 ≤ dod ∧ dod ≤ 2048 ↔ -2047 ≤ dod.toInt ∧ dod.toInt ≤ 2048 := hbounds ..
  rw [← Int64.toInt_inj,dodRead,hsteady]
  simp only [h₇,h₉,h₁₂]
  split_ifs with h₀
  · simp [h₀]
  · rw [hread 63 128 (by decide) rfl rfl (by decide)]
    omega
  · rw [hread 256 512 (by decide) rfl rfl (by decide)]
    omega
  · rw [hread 2048 4096 (by decide) rfl rfl (by decide)]
    omega
  · rw [hread 2147483647 4294967296 (by decide) rfl rfl (by decide)]
    omega

end Changes

/-- What is written and read one after another. -/
inductive Item
  | time (ts : Int64)
  | value (bits : UInt64)
  deriving DecidableEq

def Item.write : Item → GorillaEncoder → GorillaEncoder
  | .time ts => GorillaEncoder.writeTimestamp ts
  | .value bits => GorillaEncoder.writeFloat bits

/-- Read something of the same kind. -/
def Item.read : Item → Read Item
  | .time _ => do return .time (← GorillaDecoder.readTimestamp)
  | .value _ => do return .value (← GorillaDecoder.readFloat)

/-- The items in their order. -/
def writeAll (items : List Item) (e : GorillaEncoder) : GorillaEncoder :=
  items.foldl (fun e item => item.write e) e

/-- As many items back, of the same sorts. -/
def readAll : List Item → Read (List Item)
  | [] => return []
  | item::items => do
    let got ← item.read
    let rest ← readAll items
    return got::rest

/-- Encoder and decoder remember the same. The window is the whole word from the start on, and stays so. -/
structure InStep (e : GorillaEncoder) (d : GorillaDecoder) : Prop where
  prevTime : d.prevTime = e.prevTime
  prevDelta : d.prevDelta = e.prevDelta
  prevValue : d.prevValue = e.prevValue
  hasPrevTime : d.hasPrevTime = e.hasPrevTime
  hasPrevValue : d.hasPrevValue = e.hasPrevValue
  leading : e.prevLeading = 0 ∧ d.prevLeading = 0
  trailing : e.prevTrailing = 0 ∧ d.prevTrailing = 0

def itemBits (e : GorillaEncoder) : Item → List Bool
  | .time ts => if e.hasPrevTime then dodBits (ts-e.prevTime-e.prevDelta) else bitsOf 64 ts.toUInt64.toNat
  | .value bits =>
    if e.hasPrevValue then if bits ^^^ e.prevValue = 0 then [false] else
      true::false::bitsOf 64 (bits ^^^ e.prevValue).toNat
    else bitsOf 64 bits.toNat

def itemRead (e : GorillaEncoder) : Item → Item
  | .time ts =>
    if e.hasPrevTime then .time (e.prevTime+(dodRead (ts-e.prevTime-e.prevDelta)+e.prevDelta)) else
      .time ts
  | .value bits => .value bits

section Items
variable {e : GorillaEncoder} {d : GorillaDecoder}

lemma writeXor_of_window (xor : UInt64) (hleading : e.prevLeading = 0) (htrailing : e.prevTrailing = 0) :
    (e.writeBit true).writeXor xor = ((e.writeBit true).writeBit false).writeBits xor 64 := by
  have hbit := (puts_writeBit true e).same
  have hlead : (e.writeBit true).prevLeading = 0 := by rw [hbit]; exact hleading
  have htrail : (e.writeBit true).prevTrailing = 0 := by rw [hbit]; exact htrailing
  have hmask : shiftRight xor 0 &&& (shiftLeft 1 64-1) = xor := by
    have hshift : shiftRight xor 0 = xor := UInt64.ofNat_toNat
    rw [hshift,show shiftLeft 1 64-1 = -1 from rfl,UInt64.and_neg_one]
  rw [GorillaEncoder.writeXor]
  simp only [hlead,htrail,Nat.zero_le,true_and,if_true,Nat.sub_zero,hmask]

lemma written_write (item : Item) (hleading : e.prevLeading = 0) (htrailing : e.prevTrailing = 0)
    {l : List Bool} (h : WrittenBits e l) :
    WrittenBits (item.write e) (l++itemBits e item) := by
  cases item with
  | time ts =>
    simp only [Item.write,GorillaEncoder.writeTimestamp,itemBits]
    split_ifs
    · exact (puts_writeDod _ e).written l h
    · exact (puts_writeBits _ 64 e).written l h
  | value bits =>
    simp only [Item.write,GorillaEncoder.writeFloat,itemBits]
    split_ifs
    · exact (puts_writeBit false e).written l h
    · rw [writeXor_of_window _ hleading htrailing]
      exact (((puts_writeBit true e).trans (puts_writeBit false _)).trans
        (puts_writeBits _ 64 _)).written l h
    · exact (puts_writeBits _ 64 e).written l h

lemma writeFloat_leaves (bits : UInt64) (hleading : e.prevLeading = 0) (htrailing : e.prevTrailing = 0) :
    ∃ buf pos, e.writeFloat bits = { e with
      buf := buf, bitPos := pos, prevValue := bits, hasPrevValue := true } := by
  cases hprev : e.hasPrevValue with
  | false =>
    simp only [GorillaEncoder.writeFloat,hprev,Bool.false_eq_true,if_false]
    rw [(puts_writeBits bits 64 e).same]
    exact ⟨_,_,rfl⟩
  | true =>
    by_cases hxor : bits ^^^ e.prevValue = 0
    · simp only [GorillaEncoder.writeFloat,hprev,if_true,hxor]
      rw [(puts_writeBit false e).same]
      exact ⟨_,_,by rw [hprev]⟩
    · simp only [GorillaEncoder.writeFloat,hprev,if_true,if_neg hxor,
        writeXor_of_window _ hleading htrailing]
      rw [((puts_writeBit true e).trans
        ((puts_writeBit false _).trans (puts_writeBits (bits ^^^ e.prevValue) 64 _))).same]
      exact ⟨_,_,by rw [hprev]⟩

lemma writeTimestamp_leaves (ts : Int64) (e : GorillaEncoder) : ∃ buf pos, e.writeTimestamp ts = { e with
    buf := buf, bitPos := pos, prevTime := ts, prevDelta :=
  if e.hasPrevTime then ts-e.prevTime else 0, hasPrevTime := true } := by
  rw [GorillaEncoder.writeTimestamp]
  split_ifs with hprev
  · simp only
    rw [(puts_writeDod (ts-e.prevTime-e.prevDelta) e).same]
    exact ⟨_,_,by rw [hprev]⟩
  · rw [(puts_writeBits ts.toUInt64 64 e).same]
    exact ⟨_,_,rfl⟩

lemma read_time_first (ts : Int64) (hfirst : d.hasPrevTime = false)
    (hd : Ahead d.buf d.bitPos (bitsOf 64 ts.toUInt64.toNat)) :
    GorillaDecoder.readTimestamp d = some (ts,
      { d with bitPos := d.bitPos+64, prevTime := ts, prevDelta := 0, hasPrevTime := true }) := by
  change (if d.hasPrevTime = true then _ else _ : Read Int64) d = _
  rw [hfirst,if_neg Bool.false_ne_true,bind_run (takes_word ts.toUInt64 d hd),length_bitsOf]
  rfl

lemma read_time_next (dod : Int64) (hnext : d.hasPrevTime = true)
    (hd : Ahead d.buf d.bitPos (dodBits dod)) :
    GorillaDecoder.readTimestamp d = some (d.prevTime+(dodRead dod+d.prevDelta),{ d with
      bitPos := d.bitPos+(dodBits dod).length, prevDelta := dodRead dod+d.prevDelta, prevTime :=
  d.prevTime+(dodRead dod+d.prevDelta) }) := by
  change (if d.hasPrevTime = true then _ else _ : Read Int64) d = _
  rw [if_pos hnext,bind_run (takes_readDod dod d hd)]
  rfl

lemma read_value_first (bits : UInt64) (hfirst : d.hasPrevValue = false)
    (hd : Ahead d.buf d.bitPos (bitsOf 64 bits.toNat)) :
    GorillaDecoder.readFloat d = some (bits,
      { d with bitPos := d.bitPos+64, prevValue := bits, hasPrevValue := true }) := by
  change (if d.hasPrevValue = true then _ else _ : Read UInt64) d = _
  rw [hfirst,if_neg Bool.false_ne_true,bind_run (takes_word bits d hd),length_bitsOf]
  rfl

lemma read_value_same (hnext : d.hasPrevValue = true) (hd : Ahead d.buf d.bitPos [false]) :
    GorillaDecoder.readFloat d = some (d.prevValue,{ d with bitPos := d.bitPos+1 }) := by
  have hread := takes_readBit false d hd
  change (if d.hasPrevValue = true then _ else _ : Read UInt64) d = _
  rw [if_pos hnext]
  change (GorillaDecoder.readBit d).bind _ = _
  rw [hread]
  rfl

lemma read_xor (xor : UInt64) (hleading : d.prevLeading = 0) (htrailing : d.prevTrailing = 0)
    (hd : Ahead d.buf d.bitPos (false::bitsOf 64 xor.toNat)) :
    GorillaDecoder.readXor d = some (xor,{ d with bitPos := d.bitPos+65 }) := by
  obtain ⟨hbit,hrest⟩ := hd
  have hread := takes_word xor { d with bitPos := d.bitPos+1 } hrest
  have hlen : 64-d.prevLeading-d.prevTrailing = 64 := by
    rw [hleading,htrailing]
    rfl
  have hshift : ∀ d', GorillaDecoder.shiftBy xor d.prevTrailing d' = some (xor,d') := fun d' => by
    rw [htrailing]
    exact congrArg (fun x => some (x,d')) (UInt64.ofNat_toNat : shiftLeft xor 0 = xor)
  rw [length_bitsOf] at hread
  rw [GorillaDecoder.readXor,bind_run (takes_readBit false d ⟨hbit,trivial⟩)]
  change (GorillaDecoder.readBits (64-d.prevLeading-d.prevTrailing) >>= fun v =>
    GorillaDecoder.shiftBy v d.prevTrailing) _ = _
  rw [hlen]
  exact (bind_run hread).trans (hshift _)

lemma read_value_xor (xor : UInt64) (hnext : d.hasPrevValue = true) (hleading : d.prevLeading = 0)
    (htrailing : d.prevTrailing = 0)
    (hd : Ahead d.buf d.bitPos (true::false::bitsOf 64 xor.toNat)) :
    GorillaDecoder.readFloat d = some (d.prevValue ^^^ xor,
      { d with bitPos := d.bitPos+66, prevValue := d.prevValue ^^^ xor }) := by
  obtain ⟨hbit,hrest⟩ := hd
  have hread := read_xor (d := { d with bitPos := d.bitPos+1 }) xor hleading htrailing hrest
  change (if d.hasPrevValue = true then _ else _ : Read UInt64) d = _
  rw [if_pos hnext]
  change (GorillaDecoder.readBit d).bind _ = _
  rw [takes_readBit true d ⟨hbit,trivial⟩]
  change (GorillaDecoder.readXor { d with bitPos := d.bitPos+1 }).bind _ = _
  rw [hread]
  rfl

lemma read_time (ts : Int64) (h : InStep e d) (hd : Ahead d.buf d.bitPos (itemBits e (.time ts))) :
    ∃ d', (Item.time ts).read d = some (itemRead e (.time ts),d') ∧ d'.buf = d.buf ∧
      d'.bitPos = d.bitPos+(itemBits e (.time ts)).length ∧
      (itemRead e (.time ts) = .time ts → InStep ((Item.time ts).write e) d') := by
  obtain ⟨buf,pos,hwrite⟩ := writeTimestamp_leaves ts e
  simp only [Item.write,hwrite,itemBits,itemRead] at hd ⊢
  cases hprev : e.hasPrevTime with
  | false =>
    simp only [hprev,Bool.false_eq_true,if_false] at hd ⊢
    refine ⟨{ d with bitPos := d.bitPos+64, prevTime := ts, prevDelta := 0, hasPrevTime := true },
      ?_,rfl,by rw [length_bitsOf],fun _ => ?_⟩
    · exact bind_run (read_time_first ts (h.hasPrevTime.trans hprev) hd)
    · exact ⟨rfl,rfl,h.prevValue,rfl,h.hasPrevValue,h.leading,h.trailing⟩
  | true =>
    simp only [hprev,if_true] at hd ⊢
    have hread := read_time_next _ (h.hasPrevTime.trans hprev) hd
    rw [h.prevTime,h.prevDelta] at hread
    refine ⟨{ d with
        bitPos := d.bitPos+(dodBits (ts-e.prevTime-e.prevDelta)).length
        prevDelta := dodRead (ts-e.prevTime-e.prevDelta)+e.prevDelta
        prevTime := e.prevTime+(dodRead (ts-e.prevTime-e.prevDelta)+e.prevDelta) },?_,rfl,rfl,?_⟩
    · exact bind_run hread
    · intro hsame
      have hts : e.prevTime+(dodRead (ts-e.prevTime-e.prevDelta)+e.prevDelta) = ts := Item.time.inj hsame
      have hdelta : dodRead (ts-e.prevTime-e.prevDelta)+e.prevDelta = ts-e.prevTime := by
        rw [Int64.eq_sub_iff_add_eq,Int64.add_comm]
        exact hts
      exact ⟨hts,hdelta,h.prevValue,h.hasPrevTime.trans hprev,h.hasPrevValue,h.leading,h.trailing⟩

lemma read_value (bits : UInt64) (h : InStep e d) (hd : Ahead d.buf d.bitPos (itemBits e (.value bits))) :
    ∃ d', (Item.value bits).read d = some (.value bits,d') ∧ d'.buf = d.buf ∧
      d'.bitPos = d.bitPos+(itemBits e (.value bits)).length ∧
      InStep ((Item.value bits).write e) d' := by
  obtain ⟨buf,pos,hwrite⟩ := writeFloat_leaves bits h.leading.1 h.trailing.1
  simp only [Item.write,hwrite,itemBits] at hd ⊢
  cases hprev : e.hasPrevValue with
  | false =>
    simp only [hprev,Bool.false_eq_true,if_false] at hd ⊢
    refine ⟨{ d with bitPos := d.bitPos+64, prevValue := bits, hasPrevValue := true },?_,rfl,
      by rw [length_bitsOf],?_⟩
    · exact bind_run (read_value_first bits (h.hasPrevValue.trans hprev) hd)
    · exact ⟨h.prevTime,h.prevDelta,rfl,h.hasPrevTime,rfl,h.leading,h.trailing⟩
  | true =>
    have hnext := h.hasPrevValue.trans hprev
    by_cases hxor : bits ^^^ e.prevValue = 0
    · simp only [hprev,if_true,hxor] at hd ⊢
      have hsame : d.prevValue = bits := by
        rw [h.prevValue]
        exact (UInt64.xor_eq_zero_iff.mp hxor).symm
      refine ⟨{ d with bitPos := d.bitPos+1 },?_,rfl,rfl,?_⟩
      · change (GorillaDecoder.readFloat d).bind _ = _
        rw [read_value_same hnext hd,hsame]
        rfl
      · exact ⟨h.prevTime,h.prevDelta,hsame,h.hasPrevTime,hnext,h.leading,h.trailing⟩
    · simp only [hprev,if_true,if_neg hxor] at hd ⊢
      have hback : d.prevValue ^^^ (bits ^^^ e.prevValue) = bits := by
        rw [h.prevValue,UInt64.xor_comm bits,← UInt64.xor_assoc,UInt64.xor_self,UInt64.zero_xor]
      refine ⟨{ d with bitPos := d.bitPos+66, prevValue := bits },?_,rfl,by simp,?_⟩
      · change (GorillaDecoder.readFloat d).bind _ = _
        rw [read_value_xor _ hnext h.leading.2 h.trailing.2 hd,hback]
        rfl
      · exact ⟨h.prevTime,h.prevDelta,rfl,h.hasPrevTime,hnext,h.leading,h.trailing⟩

/-- An item is read from its bits; a timestamp that comes back as another one leaves encoder and
decoder apart. -/
lemma read_item (item : Item) (h : InStep e d) (hd : Ahead d.buf d.bitPos (itemBits e item)) :
    ∃ d', item.read d = some (itemRead e item,d') ∧ d'.buf = d.buf ∧
      d'.bitPos = d.bitPos+(itemBits e item).length ∧
      (itemRead e item = item → InStep (item.write e) d') := by
  cases item with
  | time ts => exact read_time ts h hd
  | value bits =>
    obtain ⟨d',hread,hbuf,hpos,hstep⟩ := read_value bits h hd
    exact ⟨d',hread,hbuf,hpos,fun _ => hstep⟩

end Items

/-- The timestamps among the items. -/
def times (items : List Item) : List Int64 := items.filterMap fun
  | .time ts => some ts
  | .value _ => none

def dodsFrom (prev delta : Int64) : List Int64 → List Int64
  | [] => []
  | ts::rest => (ts-prev-delta)::dodsFrom ts (ts-prev) rest

/-- The deltas of deltas the encoder writes. -/
def dods : List Int64 → List Int64
  | [] => []
  | ts::rest => dodsFrom ts 0 rest

def pending (e : GorillaEncoder) (tss : List Int64) : List Int64 :=
  if e.hasPrevTime then dodsFrom e.prevTime e.prevDelta tss else dods tss

def bitsAll : GorillaEncoder → List Item → List Bool
  | _,[] => []
  | e,item::items => itemBits e item++bitsAll (item.write e) items

section Runs
variable {e : GorillaEncoder} {d : GorillaDecoder}

lemma window_write (item : Item) (h : e.prevLeading = 0 ∧ e.prevTrailing = 0) :
    (item.write e).prevLeading = 0 ∧ (item.write e).prevTrailing = 0 := by
  cases item with
  | time ts =>
    obtain ⟨buf,pos,hwrite⟩ := writeTimestamp_leaves ts e
    rw [Item.write,hwrite]
    exact h
  | value bits =>
    obtain ⟨buf,pos,hwrite⟩ := writeFloat_leaves bits h.1 h.2
    rw [Item.write,hwrite]
    exact h

lemma written_writeAll (items : List Item) (h : e.prevLeading = 0 ∧ e.prevTrailing = 0)
    {l : List Bool} (hl : WrittenBits e l) :
    WrittenBits (writeAll items e) (l++bitsAll e items) := by
  induction items generalizing e l with
  | nil => rwa [bitsAll,List.append_nil]
  | cons item items ih =>
    rw [bitsAll,← List.append_assoc]
    exact ih (window_write item h) (written_write item h.1 h.2 hl)

lemma pending_value (bits : UInt64) (h : e.prevLeading = 0 ∧ e.prevTrailing = 0) (tss : List Int64) :
    pending ((Item.value bits).write e) tss = pending e tss := by
  obtain ⟨buf,pos,hwrite⟩ := writeFloat_leaves bits h.1 h.2
  rw [Item.write,hwrite]
  rfl

lemma steady_pending_time (ts : Int64) (e : GorillaEncoder) (tss : List Int64) :
    (∀ dod ∈ pending e (ts::tss), Steady dod) ↔
    itemRead e (.time ts) = .time ts ∧ ∀ dod ∈ pending ((Item.time ts).write e) tss, Steady dod := by
  obtain ⟨buf,pos,hwrite⟩ := writeTimestamp_leaves ts e
  rw [Item.write,hwrite,itemRead,pending,pending]
  cases hprev : e.hasPrevTime with
  | false => simp [dods]
  | true =>
    have hread : e.prevTime+(dodRead (ts-e.prevTime-e.prevDelta)+e.prevDelta) = ts ↔
      Steady (ts-e.prevTime-e.prevDelta) := by
      rw [← dodRead_eq_iff,Int64.eq_sub_iff_add_eq,Int64.eq_sub_iff_add_eq,Int64.add_comm e.prevTime]
    simp only [if_true,dodsFrom,List.forall_mem_cons,Item.time.injEq,hread]

lemma readAll_of_steady (items : List Item) (h : InStep e d) (hd : Ahead d.buf d.bitPos (bitsAll e items))
    (hsteady : ∀ dod ∈ pending e (times items), Steady dod) :
    ∃ d', readAll items d = some (items,d') ∧ d'.bitPos = d.bitPos+(bitsAll e items).length := by
  induction items generalizing e d with
  | nil => exact ⟨d,rfl,rfl⟩
  | cons item items ih =>
    obtain ⟨hitem,hrest⟩ := ahead_append.mp hd
    obtain ⟨d',hread,hbuf,hpos,hstep⟩ := read_item item h hitem
    have hsame : itemRead e item = item ∧ ∀ dod ∈ pending (item.write e) (times items), Steady dod := by
      cases item with
      | time ts => exact (steady_pending_time ts e (times items)).mp hsteady
      | value bits => exact ⟨rfl,by rwa [pending_value bits ⟨h.leading.1,h.trailing.1⟩]⟩
    obtain ⟨hsame,hsteady⟩ := hsame
    rw [← hpos,← hbuf] at hrest
    obtain ⟨d'',hreads,hends⟩ := ih (hstep hsame) hrest hsteady
    refine ⟨d'',?_,by rw [hends,hpos,bitsAll,List.length_append,Nat.add_assoc]⟩
    rw [readAll,bind_run hread,hsame]
    exact bind_run hreads

lemma steady_of_readAll (items : List Item) (h : InStep e d)
    (hd : Ahead d.buf d.bitPos (bitsAll e items)) {got : List Item} {d' : GorillaDecoder}
    (hreads : readAll items d = some (got,d')) (hgot : times got = times items) :
    ∀ dod ∈ pending e (times items), Steady dod := by
  induction items generalizing e d got with
  | nil =>
    rw [show times [] = [] from rfl,pending]
    split <;> exact List.forall_mem_nil _
  | cons item items ih =>
    obtain ⟨hitem,hrest⟩ := ahead_append.mp hd
    obtain ⟨d₁,hread,hbuf,hpos,hstep⟩ := read_item item h hitem
    rw [← hpos,← hbuf] at hrest
    change (item.read d).bind _ = _ at hreads
    rw [hread] at hreads
    change (readAll items d₁).bind _ = _ at hreads
    obtain ⟨⟨rest,d₂⟩,hreads',hcons⟩ := Option.bind_eq_some_iff.mp hreads
    obtain ⟨rfl,rfl⟩ : itemRead e item::rest = got ∧ d₂ = d' := Prod.mk.inj (Option.some.inj hcons)
    cases item with
    | time ts =>
      obtain ⟨t,ht⟩ : ∃ t, itemRead e (.time ts) = .time t := by
        rw [itemRead]
        split <;> exact ⟨_,rfl⟩
      rw [ht] at hgot
      obtain ⟨rfl,hrests⟩ : t = ts ∧ times rest = times items := List.cons.inj hgot
      exact (steady_pending_time t e (times items)).mpr ⟨ht,ih (hstep ht) hrest hreads' hrests⟩
    | value bits =>
      have hsteady := ih (hstep rfl) hrest hreads' hgot
      rwa [pending_value bits ⟨h.leading.1,h.trailing.1⟩] at hsteady

lemma inStep_new (cap : ℕ) (b : Bytes) : InStep (newGorillaEncoder cap) (newGorillaDecoder b) :=
  ⟨rfl,rfl,rfl,rfl,rfl,⟨rfl,rfl⟩,⟨rfl,rfl⟩⟩

lemma ahead_bytes (cap : ℕ) (items : List Item) : (writeAll items (newGorillaEncoder cap)).bitPos =
      (bitsAll (newGorillaEncoder cap) items).length ∧
    Ahead (writeAll items (newGorillaEncoder cap)).bytes 0 (bitsAll (newGorillaEncoder cap) items) := by
  obtain ⟨hpos,hholds⟩ := written_writeAll items ⟨rfl,rfl⟩ (written_new cap)
  rw [List.nil_append] at hpos hholds
  refine ⟨hpos,(hholds.take ?_).ahead⟩
  omega

end Runs

/-- The timestamps are read back, with the bits that were written and no others, exactly if each
change of their distance is a number of 32 bits other than 64. -/
theorem timestamps_round_trip_iff (cap : ℕ) (items : List Item) :
    (∃ got d, readAll items (newGorillaDecoder (writeAll items (newGorillaEncoder cap)).bytes) =
      some (got,d) ∧ times got = times items ∧
      d.bitPos = (writeAll items (newGorillaEncoder cap)).bitPos) ↔
        ∀ dod ∈ dods (times items), Steady dod := by
  obtain ⟨hpos,hahead⟩ := ahead_bytes cap items
  constructor
  · rintro ⟨got,d,hreads,hgot,-⟩
    exact steady_of_readAll items (inStep_new cap _) hahead hreads hgot
  · intro hsteady
    obtain ⟨d,hreads,hends⟩ := readAll_of_steady items (inStep_new cap _) hahead hsteady
    exact ⟨items,d,hreads,rfl,by rw [hends,hpos]; exact Nat.zero_add _⟩

/-- A timestamp 64 after the first one is read as one 64 before it. -/
theorem timestamp_read_before :
    (readAll [.time 0,.time 64]
      (newGorillaDecoder (writeAll [.time 0,.time 64] (newGorillaEncoder 16)).bytes)).map Prod.fst =
      some [.time 0,.time (-64)] := by
  decide +kernel

/-- Values are read back bit by bit, and nothing is read beyond the bits that were written. -/
theorem values_round_trip (cap : ℕ) (vals : List UInt64) :
    ∃ d, readAll (vals.map .value) (newGorillaDecoder
      (writeAll (vals.map .value) (newGorillaEncoder cap)).bytes) = some (vals.map .value,d) ∧
      d.bitPos = (writeAll (vals.map .value) (newGorillaEncoder cap)).bitPos := by
  obtain ⟨hpos,hahead⟩ := ahead_bytes cap (vals.map .value)
  have htimes : times (vals.map .value) = [] := by
    rw [times,List.filterMap_eq_nil_iff,List.forall_mem_map]
    exact fun _ _ => rfl
  obtain ⟨d,hreads,hends⟩ :=
    readAll_of_steady _ (inStep_new cap _) hahead (by rw [htimes]; exact List.forall_mem_nil _)
  exact ⟨d,hreads,by rw [hends,hpos]; exact Nat.zero_add _⟩

end Plomvix.Metrics
