import Plomvix.Lib.Bytes

/-! The byte order on strings with a common beginning, and the interval between a string and
its successor in the sense of a counter with carries. -/
namespace Plomvix.Lib

lemma append_lt_append_iff (p a b : Bytes) : p++a < p++b ↔ a < b := by
  induction p with
  | nil => rfl
  | cons x p ih => simp [ih]

lemma cons_le_iff {x y : UInt8} {a b : Bytes} : x::a ≤ y::b ↔ x < y ∨ x = y ∧ a ≤ b := by
  rw [← not_lt,List.cons_lt_cons_iff,not_or,not_and,← not_lt]
  constructor
  · rintro ⟨h1,h2⟩
    obtain h | h | h := lt_trichotomy x y
    · exact .inl h
    · exact .inr ⟨h,h2 h.symm⟩
    · exact absurd h h1
  · rintro (h | ⟨rfl,h⟩)
    · exact ⟨h.asymm,fun he => absurd h (he ▸ lt_irrefl _)⟩
    · exact ⟨lt_irrefl _,fun _ => h⟩

lemma not_cons_le_nil (x : UInt8) (a : Bytes) : ¬x::a ≤ [] := not_le.mpr (List.nil_lt_cons x a)

lemma le_append (p r : Bytes) : p ≤ p++r := by
  induction p with
  | nil => exact not_lt.mp (List.not_lt_nil r)
  | cons x p ih => exact cons_le_iff.mpr (.inr ⟨rfl,ih⟩)

theorem beBytes_lt_iff {w m n : ℕ} (hm : m < 256^w) (hn : n < 256^w) :
    beBytes w m < beBytes w n ↔ m < n := by
  induction w generalizing m n with
  | zero =>
    obtain rfl : m = 0 := by simpa using hm
    obtain rfl : n = 0 := by simpa using hn
    simp [beBytes]
  | succ w ih =>
    have hpos : 0 < 256^w := by positivity
    have hdm : m/256^w < 256 := by rw [Nat.div_lt_iff_lt_mul hpos,← pow_succ']; exact hm
    have hdn : n/256^w < 256 := by rw [Nat.div_lt_iff_lt_mul hpos,← pow_succ']; exact hn
    have hdigit : UInt8.ofNat (m/256^w) < UInt8.ofNat (n/256^w) ↔ m/256^w < n/256^w := by
      rw [UInt8.lt_iff_toNat_lt,UInt8.toNat_ofNat',UInt8.toNat_ofNat',Nat.mod_eq_of_lt hdm,
        Nat.mod_eq_of_lt hdn]
    have hsame : UInt8.ofNat (m/256^w) = UInt8.ofNat (n/256^w) ↔ m/256^w = n/256^w := by
      rw [← UInt8.toNat_inj,UInt8.toNat_ofNat',UInt8.toNat_ofNat',Nat.mod_eq_of_lt hdm,
        Nat.mod_eq_of_lt hdn]
    rw [beBytes,beBytes,List.cons_lt_cons_iff,hdigit,hsame,← beBytes_mod w m,← beBytes_mod w n,
      ih (Nat.mod_lt _ hpos) (Nat.mod_lt _ hpos)]
    have h1 := Nat.div_add_mod m (256^w)
    have h2 := Nat.div_add_mod n (256^w)
    have h3 := Nat.mod_lt m hpos
    have h4 := Nat.mod_lt n hpos
    have hmul {x y : ℕ} (hxy : x < y) : 256^w*x+256^w ≤ 256^w*y :=
      Nat.mul_succ (256^w) x ▸ Nat.mul_le_mul_left _ hxy
    constructor
    · rintro (h | ⟨h,h'⟩)
      · have := hmul h
        omega
      · rw [h] at h1
        omega
    · intro h
      obtain hd | hd | hd := lt_trichotomy (m/256^w) (n/256^w)
      · exact .inl hd
      · rw [hd] at h1
        exact .inr ⟨hd,by omega⟩
      · have := hmul hd
        omega

lemma zeros_of_lt {n : ℕ} {k : Bytes} (h : k < List.replicate n 0) : ∃ m < n, k = List.replicate m 0 := by
  induction n generalizing k with
  | zero => exact absurd h (List.not_lt_nil k)
  | succ n ih =>
    cases k with
    | nil => exact ⟨0,Nat.succ_pos n,rfl⟩
    | cons x k =>
      rw [List.replicate_succ,List.cons_lt_cons_iff] at h
      obtain hx | ⟨rfl,hk⟩ := h
      · exact absurd hx (by simp [UInt8.lt_iff_toNat_lt])
      · obtain ⟨m,hm,rfl⟩ := ih hk
        exact ⟨m+1,Nat.succ_lt_succ hm,rfl⟩

lemma ones_of_le {n : ℕ} {k : Bytes} (h : List.replicate n 255 ≤ k) : List.replicate n 255 <+: k := by
  induction n generalizing k with
  | zero => exact List.nil_prefix
  | succ n ih =>
    cases k with
    | nil => exact absurd h (not_cons_le_nil _ _)
    | cons x k =>
      rw [List.replicate_succ,cons_le_iff] at h
      obtain hx | ⟨rfl,hk⟩ := h
      · have hlt := x.toNat_lt
        rw [UInt8.lt_iff_toNat_lt] at hx
        simp at hx
        omega
      · rw [List.replicate_succ]
        exact List.cons_prefix_cons.mpr ⟨rfl,ih hk⟩

lemma succ_le_of_lt {b k : UInt8} (h : b < k) : b+1 ≤ k ∧ b < b+1 := by
  have hk := k.toNat_lt
  rw [UInt8.lt_iff_toNat_lt] at h
  have hs : (b+1).toNat = b.toNat+1 := by
    rw [UInt8.toNat_add,UInt8.toNat_one]
    omega
  rw [UInt8.le_iff_toNat_le,UInt8.lt_iff_toNat_lt,hs]
  omega

/-- What lies between a string and its successor: the strings that begin with it, and the
successor cut short within its zeros. -/
theorem mem_carry_interval {a k : Bytes} {b : UInt8} {n : ℕ} (hlo : a++b::List.replicate n 255 ≤ k)
    (hhi : k < a++(b+1)::List.replicate n 0) :
    a++b::List.replicate n 255 <+: k ∨ ∃ m < n, k = a++(b+1)::List.replicate m 0 := by
  induction a generalizing k with
  | nil =>
    cases k with
    | nil => exact absurd hlo (not_cons_le_nil _ _)
    | cons x k =>
      rw [List.nil_append] at hlo hhi
      rw [cons_le_iff] at hlo
      rw [List.cons_lt_cons_iff] at hhi
      obtain hx | ⟨rfl,hk⟩ := hlo
      · obtain hx' | ⟨rfl,hk⟩ := hhi
        · exact absurd hx' (not_lt.mpr (succ_le_of_lt hx).1)
        · obtain ⟨m,hm,rfl⟩ := zeros_of_lt hk
          exact .inr ⟨m,hm,rfl⟩
      · exact .inl (List.cons_prefix_cons.mpr ⟨rfl,ones_of_le hk⟩)
  | cons y a ih =>
    cases k with
    | nil => exact absurd hlo (not_cons_le_nil _ _)
    | cons x k =>
      rw [List.cons_append] at hlo hhi
      rw [cons_le_iff] at hlo
      rw [List.cons_lt_cons_iff] at hhi
      obtain hx | ⟨rfl,hlo⟩ := hlo
      · obtain hx' | ⟨rfl,-⟩ := hhi
        · exact absurd hx' hx.asymm
        · exact absurd hx (lt_irrefl _)
      · obtain hhi | ⟨-,hhi⟩ := hhi
        · exact absurd hhi (lt_irrefl _)
        · refine (ih hlo hhi).imp (fun h => List.cons_prefix_cons.mpr ⟨rfl,h⟩) ?_
          rintro ⟨m,hm,rfl⟩
          exact ⟨m,hm,rfl⟩

lemma append_lt_carry {a : Bytes} {b : UInt8} (hb : b≠255) (n : ℕ) (r z : Bytes) :
    a++b::List.replicate n 255++r < a++(b+1)::z := by
  rw [List.append_assoc,append_lt_append_iff,List.cons_append,List.cons_lt_cons_iff]
  have hlt : b < 255 := by
    have h := b.toNat_lt
    have hne : b.toNat≠255 := fun he => hb (UInt8.toNat_inj.mp he)
    rw [UInt8.lt_iff_toNat_lt]
    change b.toNat < 255
    omega
  exact .inl (succ_le_of_lt hlt).2

theorem carry_interval_of_append {a : Bytes} {b : UInt8} (hb : b≠255) (n : ℕ) (r : Bytes) :
    a++b::List.replicate n 255 ≤ a++b::List.replicate n 255++r ∧
      a++b::List.replicate n 255++r < a++(b+1)::List.replicate n 0 :=
  ⟨le_append ..,append_lt_carry hb n r _⟩

end Plomvix.Lib
