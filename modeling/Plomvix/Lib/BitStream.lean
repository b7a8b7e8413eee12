import Plomvix.Lib.Bytes

/-! Bits in a byte string, the most significant bit of a byte first: numbers as runs of bits, what a
position holds, and what is ahead of one. -/
namespace Plomvix.Lib.BitStream
variable {bits : List Bool} {b : Bytes} {pos : ℕ}

/-- The `w` low-order bits of `n`, most significant first. -/
def bitsOf : ℕ → ℕ → List Bool
  | 0,_ => []
  | w+1,n => n.testBit w::bitsOf w n

def readInto (n : ℕ) (bits : List Bool) : ℕ := bits.foldl (fun n b => 2*n+b.toNat) n

lemma readInto_eq (n : ℕ) (bits : List Bool) : readInto n bits = n*2^bits.length+readInto 0 bits := by
  induction bits generalizing n with
  | nil => simp [readInto]
  | cons bit bits ih =>
    have hstep : ∀ n, readInto n (bit::bits) = readInto (2*n+bit.toNat) bits := fun _ => rfl
    rw [hstep,hstep,ih,ih (2*0+bit.toNat),List.length_cons]
    ring

lemma readInto_mod (n m : ℕ) (bits : List Bool) : readInto (n%m) bits%m = readInto n bits%m := by
  rw [readInto_eq,readInto_eq n]
  simp [Nat.add_mod,Nat.mul_mod]

@[simp] lemma length_bitsOf (w n : ℕ) : (bitsOf w n).length = w := by
  induction w with
  | zero => rfl
  | succ w ih => rw [bitsOf,List.length_cons,ih]

lemma mod_two_pow_succ (n w : ℕ) : n%2^(w+1) = 2^w*(n.testBit w).toNat+n%2^w := by
  rw [Nat.toNat_testBit,pow_succ,Nat.mod_mul]
  ring

lemma readInto_bitsOf (m w n : ℕ) : readInto m (bitsOf w n) = m*2^w+n%2^w := by
  induction w generalizing m with
  | zero => simp [bitsOf,readInto,Nat.mod_one]
  | succ w ih =>
    have hstep : readInto m (bitsOf (w+1) n) = readInto (2*m+(n.testBit w).toNat) (bitsOf w n) := rfl
    rw [hstep,ih,mod_two_pow_succ]
    ring

lemma bitsOf_mod {w v : ℕ} (h : w ≤ v) (n : ℕ) : bitsOf w (n%2^v) = bitsOf w n := by
  induction w with
  | zero => rfl
  | succ w ih =>
    have hbit : (n%2^v).testBit w = n.testBit w := by simp [Nat.testBit_mod_two_pow,Nat.lt_of_succ_le h]
    rw [bitsOf,bitsOf,hbit,ih (Nat.le_of_succ_le h)]

def bitAt (b : Bytes) (pos : ℕ) : Option Bool := b[pos/8]?.map fun x => x.toNat.testBit (7-pos%8)

/-- The byte string holds the bits and then zeros. -/
def Holds (b : Bytes) (bits : List Bool) : Prop :=
  bits.length ≤ 8*b.length ∧ ∀ pos < 8*b.length, bitAt b pos = some (bits.getD pos false)

lemma holds_zeros (n : ℕ) : Holds (List.replicate n 0) [] := by
  refine ⟨Nat.zero_le _,fun pos hpos => ?_⟩
  rw [List.length_replicate] at hpos
  have hbyte : (List.replicate n (0 : UInt8))[pos/8]? = some 0 := by
    rw [List.getElem?_replicate,if_pos (by omega)]
  simp [bitAt,hbyte]

lemma bitAt_append_left (b' : Bytes) (h : pos < 8*b.length) :
    bitAt (b++b') pos = bitAt b pos := by
  rw [bitAt,bitAt,List.getElem?_append_left (by omega)]

lemma Holds.append_zeros (h : Holds b bits) (n : ℕ) :
    Holds (b++List.replicate n 0) bits := by
  refine ⟨by simp only [List.length_append]; have := h.1; omega,fun pos hpos => ?_⟩
  by_cases hb : pos < 8*b.length
  · rw [bitAt_append_left _ hb,h.2 pos hb]
  · have hzero : (b++List.replicate n (0 : UInt8))[pos/8]? = some 0 := by
      rw [List.length_append,List.length_replicate] at hpos
      rw [List.getElem?_append_right (by omega),List.getElem?_replicate,if_pos (by omega)]
    have hend : bits.getD pos false = false := by
      have hlen := h.1
      rw [List.getD_eq_default _ _ (by omega)]
    rw [bitAt,hzero,hend]
    simp

lemma Holds.take (h : Holds b bits) {n : ℕ} (hn : bits.length ≤ 8*n) : Holds (b.take n) bits := by
  have hlen := h.1
  refine ⟨by rw [List.length_take]; omega,fun pos hpos => ?_⟩
  rw [List.length_take] at hpos
  have hbyte : (b.take n)[pos/8]? = b[pos/8]? := by rw [List.getElem?_take,if_pos (by omega)]
  rw [bitAt,hbyte]
  exact h.2 pos (by omega)

lemma toNat_one_shiftLeft {k : ℕ} (h : k < 8) : ((1 : UInt8) <<< UInt8.ofNat k).toNat = 2^k := by
  interval_cases k <;> rfl

lemma bitAt_modify (h : pos < 8*b.length) (i : ℕ) :
    bitAt (b.modify (pos/8) (· ||| 1 <<< UInt8.ofNat (7-pos%8))) i = if i = pos then some true else
      bitAt b i := by
  rw [bitAt,List.getElem?_modify]
  by_cases hbyte : pos/8 = i/8
  · obtain ⟨x,hx⟩ : ∃ x, b[i/8]? = some x := ⟨_,List.getElem?_eq_getElem (by omega)⟩
    have hbit : decide (7-pos%8 = 7-i%8) = decide (i = pos) := decide_eq_decide.mpr (by omega)
    simp only [hx,hbyte,if_true,Option.map_eq_map,Option.map_some,bitAt,UInt8.toNat_or,Nat.testBit_or,
      toNat_one_shiftLeft (show 7-pos%8 < 8 by omega),Nat.testBit_two_pow,hbit]
    split_ifs with heq
    · simp [heq]
    · simp [heq]
  · have hne : i≠pos := fun heq => hbyte (heq ▸ rfl)
    simp only [hbyte,if_false,if_neg hne,Option.map_eq_map,Option.map_id_fun',id_eq,bitAt]

lemma getD_snoc_of_ne (bit : Bool) (h : pos≠bits.length) :
    (bits++[bit]).getD pos false = bits.getD pos false := by
  by_cases hlt : pos < bits.length
  · rw [List.getD_append _ _ _ _ hlt]
  · rw [List.getD_eq_default _ _ (by rw [List.length_append,List.length_singleton]; omega),
      List.getD_eq_default _ _ (by omega)]

lemma Holds.snoc_true (h : Holds b bits) (hroom : bits.length < 8*b.length) :
    Holds (b.modify (bits.length/8) (· ||| 1 <<< UInt8.ofNat (7-bits.length%8))) (bits++[true]) := by
  refine ⟨by simpa using hroom,fun pos hpos => ?_⟩
  rw [List.length_modify] at hpos
  rw [bitAt_modify hroom]
  split_ifs with heq
  · simp [heq]
  · rw [h.2 pos hpos,getD_snoc_of_ne true heq]

lemma Holds.snoc_false (h : Holds b bits)
    (hroom : bits.length < 8*b.length) : Holds b (bits++[false]) := by
  refine ⟨by simpa using hroom,fun pos hpos => ?_⟩
  rw [h.2 pos hpos]
  by_cases heq : pos = bits.length
  · simp [heq]
  · rw [getD_snoc_of_ne false heq]

def Ahead (b : Bytes) (pos : ℕ) : List Bool → Prop
  | [] => True
  | bit::bits => bitAt b pos = some bit ∧ Ahead b (pos+1) bits

lemma ahead_append {bits bits' : List Bool} :
    Ahead b pos (bits++bits') ↔ Ahead b pos bits ∧ Ahead b (pos+bits.length) bits' := by
  induction bits generalizing pos with
  | nil => simp [Ahead]
  | cons bit bits ih =>
    rw [List.cons_append,Ahead,Ahead,ih,and_assoc,List.length_cons,Nat.add_assoc,Nat.add_comm 1]

lemma Holds.ahead (h : Holds b bits) : Ahead b 0 bits := by
  have hfrom : ∀ rest pos, bits.drop pos = rest → Ahead b pos rest := by
    intro rest
    induction rest with
    | nil => exact fun _ _ => trivial
    | cons bit rest ih =>
      intro pos hdrop
      have hpos : pos < bits.length := by
        by_contra hle
        rw [List.drop_eq_nil_of_le (not_lt.mp hle)] at hdrop
        cases hdrop
      rw [List.drop_eq_getElem_cons hpos] at hdrop
      obtain ⟨hbit,hrest⟩ := List.cons.inj hdrop
      have hlen := h.1
      refine ⟨?_,ih (pos+1) hrest⟩
      rw [h.2 pos (by omega),List.getD_eq_getElem _ _ hpos,hbit]
  exact hfrom bits 0 rfl

end Plomvix.Lib.BitStream
