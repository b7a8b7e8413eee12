import Mathlib

/-! The order by the first of several keys on which two elements differ, each of the keys taken
upwards or downwards. -/
namespace Plomvix.Lib
variable {α β κ : Type} [LinearOrder β]

section Defs
variable (rank : κ → α → β) (desc : κ → Bool)

def keyBelow (key : κ) (x y : α) : Prop :=
  if desc key then rank key y < rank key x else rank key x < rank key y

def lexLe : List κ → α → α → Prop
  | [],_,_ => True
  | key::keys,x,y => keyBelow rank desc key x y ∨ rank key x = rank key y ∧ lexLe keys x y

instance (key : κ) (x y : α) : Decidable (keyBelow rank desc key x y) :=
  inferInstanceAs (Decidable (if desc key then rank key y < rank key x else rank key x < rank key y))

instance decidableLexLe : ∀ keys : List κ, DecidableRel (lexLe rank desc keys)
  | [] => fun _ _ => inferInstanceAs (Decidable True)
  | key::keys => fun x y =>
    have : Decidable (lexLe rank desc keys x y) := decidableLexLe keys x y
    inferInstanceAs (Decidable (keyBelow rank desc key x y ∨ rank key x = rank key y ∧
      lexLe rank desc keys x y))

end Defs

variable {rank : κ → α → β} {desc : κ → Bool} {key : κ} {keys : List κ} {x y z : α}

lemma keyBelow_trans (h : keyBelow rank desc key x y) (h' : keyBelow rank desc key y z) :
    keyBelow rank desc key x z := by
  rw [keyBelow] at *
  split_ifs at *
  · exact h'.trans h
  · exact h.trans h'

lemma keyBelow_congr (h : rank key x = rank key y) :
    keyBelow rank desc key x z ↔ keyBelow rank desc key y z := by
  rw [keyBelow,keyBelow,h]

lemma keyBelow_congr_right (h : rank key x = rank key y) :
    keyBelow rank desc key z x ↔ keyBelow rank desc key z y := by
  rw [keyBelow,keyBelow,h]

lemma keyBelow_trichotomy (rank : κ → α → β) (desc : κ → Bool) (key : κ) (x y : α) :
    keyBelow rank desc key x y ∨ rank key x = rank key y ∨ keyBelow rank desc key y x := by
  rw [keyBelow,keyBelow]
  split_ifs
  · exact (lt_trichotomy (rank key y) (rank key x)).imp id (Or.imp Eq.symm id)
  · exact lt_trichotomy (rank key x) (rank key y)

lemma lexLe_trans (h : lexLe rank desc keys x y) (h' : lexLe rank desc keys y z) :
    lexLe rank desc keys x z := by
  induction keys with
  | nil => trivial
  | cons key keys ih =>
    obtain h | ⟨heq,h⟩ := h
    · obtain h' | ⟨heq',-⟩ := h'
      · exact .inl (keyBelow_trans h h')
      · exact .inl ((keyBelow_congr_right heq').mp h)
    · obtain h' | ⟨heq',h'⟩ := h'
      · exact .inl ((keyBelow_congr heq).mpr h')
      · exact .inr ⟨heq.trans heq',ih h h'⟩

lemma lexLe_total (keys : List κ) (x y : α) : lexLe rank desc keys x y ∨ lexLe rank desc keys y x := by
  induction keys with
  | nil => exact .inl trivial
  | cons key keys ih =>
    obtain h | heq | h := keyBelow_trichotomy rank desc key x y
    · exact .inl (.inl h)
    · exact ih.imp (fun h => .inr ⟨heq,h⟩) (fun h => .inr ⟨heq.symm,h⟩)
    · exact .inr (.inl h)

instance : IsTrans α (lexLe rank desc keys) := ⟨fun _ _ _ => lexLe_trans⟩
instance : Std.Total (lexLe rank desc keys) := ⟨lexLe_total keys⟩

end Plomvix.Lib
