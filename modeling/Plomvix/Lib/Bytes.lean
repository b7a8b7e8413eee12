import Mathlib

/-! Byte strings: big-endian fixed-width numbers, zero padding and the byte order.
Everything here is about lists of octets; no file format is fixed. -/
namespace Plomvix.Lib

abbrev Bytes := List UInt8

instance lawfulBytes : LawfulBEq Bytes := inferInstance

instance byteOrder : LinearOrder UInt8 where
  le_refl := UInt8.le_refl
  le_trans _ _ _ := UInt8.le_trans
  le_antisymm _ _ := UInt8.le_antisymm
  le_total := UInt8.le_total
  lt_iff_le_not_ge a b := by
    rw [UInt8.lt_iff_toNat_lt,UInt8.le_iff_toNat_le,UInt8.le_iff_toNat_le]
    omega
  toDecidableLE := inferInstance
  toDecidableLT := inferInstance

instance wordOrder : LinearOrder UInt64 where
  le_refl := UInt64.le_refl
  le_trans _ _ _ := UInt64.le_trans
  le_antisymm _ _ := UInt64.le_antisymm
  le_total := UInt64.le_total
  lt_iff_le_not_ge a b := by
    rw [UInt64.lt_iff_toNat_lt,UInt64.le_iff_toNat_le,UInt64.le_iff_toNat_le]
    omega
  toDecidableLE := inferInstance
  toDecidableLT := inferInstance

lemma toNat_succ {x : UInt64} (h : x.toNat+1 < 2^64) : (x+1).toNat = x.toNat+1 := by
  rw [UInt64.toNat_add]
  exact Nat.mod_eq_of_lt h

lemma lt_succ {x : UInt64} (h : x.toNat+1 < 2^64) : x < x+1 := by
  rw [UInt64.lt_iff_toNat_lt,toNat_succ h]
  exact Nat.lt_succ_self _

lemma le_of_lt_succ {x y : UInt64} (h : x < y+1) (hy : y.toNat+1 < 2^64) : x ≤ y := by
  rw [UInt64.lt_iff_toNat_lt,toNat_succ hy] at h
  exact UInt64.le_iff_toNat_le.mpr (Nat.le_of_lt_succ h)

lemma toNat_succ_lt {x : UInt64} (h : x+1≠0) : x.toNat+1 < 2^64 := by
  by_contra hx
  have hlt := x.toNat_lt
  apply h
  apply UInt64.toNat_inj.mp
  rw [UInt64.toNat_add,show x.toNat = 2^64-1 by omega]
  rfl

/-- The `w` low-order bytes of `n`, most significant first. -/
def beBytes : ℕ → ℕ → Bytes
  | 0,_ => []
  | w+1,n => UInt8.ofNat (n/256^w)::beBytes w n

def beNat (b : Bytes) : ℕ := b.foldl (fun n x => n*256+x.toNat) 0

@[simp] theorem beBytes_length (w n : ℕ) : (beBytes w n).length = w := by
  induction w with
  | zero => rfl
  | succ w ih => simp [beBytes,ih]

lemma foldl_be (b : Bytes) (n : ℕ) :
    b.foldl (fun n x => n*256+x.toNat) n = n*256^b.length+beNat b := by
  induction b generalizing n with
  | nil => simp [beNat]
  | cons x b ih =>
    simp only [List.foldl_cons,beNat,List.length_cons,zero_mul,zero_add]
    rw [ih,ih x.toNat]
    ring

lemma beNat_cons (x : UInt8) (b : Bytes) : beNat (x::b) = x.toNat*256^b.length+beNat b := by
  simp [beNat,foldl_be b x.toNat]

theorem beNat_lt (b : Bytes) : beNat b < 256^b.length := by
  induction b with
  | nil => simp [beNat]
  | cons x b ih =>
    rw [beNat_cons,List.length_cons,pow_succ]
    have hx := x.toNat_lt
    nlinarith

theorem beNat_beBytes_mod (w n : ℕ) : beNat (beBytes w n) = n%256^w := by
  induction w with
  | zero => simp [beBytes,beNat,Nat.mod_one]
  | succ w ih =>
    rw [beBytes,beNat_cons,ih,beBytes_length]
    have h := Nat.mod_mul (x := n) (a := 256^w) (b := 256)
    rw [← pow_succ] at h
    simp only [UInt8.toNat_ofNat']
    rw [h]
    ring

lemma beBytes_add_mul (w n m : ℕ) : beBytes w (n+m*256^w) = beBytes w n := by
  induction w generalizing m with
  | zero => rfl
  | succ w ih =>
    have hm : m*256^(w+1) = m*256*256^w := by ring
    rw [beBytes,beBytes,hm,ih,Nat.add_mul_div_right _ _ (by positivity)]
    congr 1
    apply UInt8.toNat_inj.mp
    simp only [UInt8.toNat_ofNat']
    omega

theorem beBytes_mod (w n : ℕ) : beBytes w (n%256^w) = beBytes w n := by
  have h := beBytes_add_mul w (n%256^w) (n/256^w)
  rw [Nat.mod_add_div'] at h
  exact h.symm

theorem beNat_beBytes {w n : ℕ} (h : n<256^w) : beNat (beBytes w n) = n := by
  rw [beNat_beBytes_mod,Nat.mod_eq_of_lt h]

theorem beBytes_beNat (b : Bytes) : beBytes b.length (beNat b) = b := by
  induction b with
  | nil => rfl
  | cons x b ih =>
    have hpos : 0 < 256^b.length := by positivity
    rw [List.length_cons,beBytes,beNat_cons,Nat.add_comm,beBytes_add_mul,ih,Nat.add_mul_div_right _ _ hpos,
      Nat.div_eq_of_lt (beNat_lt b),zero_add]
    congr 1
    exact UInt8.ofNat_toNat

/-- `b` followed by zeros up to length `n`. -/
def padTo (n : ℕ) (b : Bytes) : Bytes := b++List.replicate (n-b.length) 0

@[simp] theorem padTo_length (n : ℕ) (b : Bytes) : (padTo n b).length = max n b.length := by
  simp only [padTo,List.length_append,List.length_replicate]
  omega

@[simp] theorem take_padTo (n : ℕ) (b : Bytes) : (padTo n b).take b.length = b := by
  simp [padTo]

theorem padTo_of_length {n : ℕ} {b : Bytes} (h : b.length = n) : padTo n b = b := by
  simp [padTo,h]

theorem take_drop_field {a b c : Bytes} {i n : ℕ} (ha : a.length = i) (hb : b.length = n) :
    ((a++b++c).drop i).take n = b := by
  subst ha hb
  simp

end Plomvix.Lib
