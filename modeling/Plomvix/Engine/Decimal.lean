import Plomvix.Engine.Planner

/-! Numbers in decimal. -/
namespace Plomvix.Engine
open Lib

lemma digitsVal_digits {l : List ℕ} (h : ∀ d ∈ l, d < 10) :
    digitsVal (l.reverse.map fun d => UInt8.ofNat (48+d)) = Nat.ofDigits 10 l := by
  rw [digitsVal,List.map_reverse,List.foldl_reverse]
  induction l with
  | nil => rfl
  | cons d l ih =>
    have hd := h d (List.mem_cons_self ..)
    have hbyte : (UInt8.ofNat (48+d)).toNat = 48+d := UInt8.toNat_ofNat_of_lt' (show 48+d < 256 by omega)
    rw [List.map_cons,List.foldr_cons,ih fun x hx =>
      h x (List.mem_cons_of_mem _ hx),Nat.ofDigits_cons,hbyte]
    omega

lemma digitsVal_decimal (n : ℕ) : digitsVal (decimal n) = n := by
  rw [decimal]
  split
  · rename_i h
    rw [h]
    rfl
  · rw [digitsVal_digits fun d hd => Nat.digits_lt_base (by norm_num) hd,Nat.ofDigits_digits]

lemma decimal_injective : Function.Injective decimal := by
  intro m n h
  rw [← digitsVal_decimal m,h,digitsVal_decimal]

lemma isDigit_ofNat : ∀ d : Fin 10, isDigit (UInt8.ofNat (48+d.val)) = true := by decide

lemma isDigit_decimal {n : ℕ} {c : UInt8} (h : c ∈ decimal n) : isDigit c = true := by
  rw [decimal] at h
  split_ifs at h
  · rw [List.mem_singleton.mp h]
    rfl
  · obtain ⟨d,hd,rfl⟩ := List.mem_map.mp h
    have hlt : d < 10 := Nat.digits_lt_base (by norm_num) (List.mem_reverse.mp hd)
    exact isDigit_ofNat ⟨d,hlt⟩

lemma decimal_of_lt {n : ℕ} (h : n < 10) : decimal n = [UInt8.ofNat (48+n)] := by
  rw [decimal]
  split_ifs with h0
  · rw [h0]
    rfl
  · rw [Nat.digits_of_lt 10 n h0 h]
    rfl

lemma decimal_of_ge {n : ℕ} (h : 10 ≤ n) : decimal n = decimal (n/10)++[UInt8.ofNat (48+n%10)] := by
  have hn : n≠0 := by omega
  have hq : n/10≠0 := by omega
  rw [decimal,if_neg hn,decimal,if_neg hq,Nat.digits_def' (by norm_num) (by omega)]
  simp

lemma decimal_ne_nil (n : ℕ) : decimal n≠[] := by
  by_cases h : n < 10
  · simp [decimal_of_lt h]
  · simp [decimal_of_ge (not_lt.mp h)]

lemma decimal_of_isPrefix {n : ℕ} (hn : 0 < n) {p : Bytes} (h : p <+: decimal n) (hp : p≠[]) :
    ∃ m, 0 < m ∧ m ≤ n ∧ p = decimal m := by
  induction n using Nat.strong_induction_on with
  | _ n ih =>
    by_cases hlt : n < 10
    · rw [decimal_of_lt hlt] at h
      refine ⟨n,hn,le_rfl,?_⟩
      rw [decimal_of_lt hlt]
      have hle : p.length ≤ 1 := h.length_le
      have hpos := List.length_pos_iff.mpr hp
      exact h.eq_of_length (show p.length = 1 by omega)
    · rw [decimal_of_ge (not_lt.mp hlt)] at h
      obtain h | h := List.prefix_concat_iff.mp h
      · exact ⟨n,hn,le_rfl,by rw [h,decimal_of_ge (not_lt.mp hlt)]⟩
      · obtain ⟨m,hm,hle,hpm⟩ := ih (n/10) (by omega) (by omega) h
        exact ⟨m,hm,by omega,hpm⟩

end Plomvix.Engine
