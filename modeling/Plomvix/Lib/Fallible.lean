import Mathlib

/-! Computations that give a value or an error: what a sequence of them having given a value says of
each. -/
namespace Plomvix.Lib

lemma forall₂_flatMap {α β γ : Type} {f : α → List γ} {g : β → List γ} {as : List α} {bs : List β}
    (h : List.Forall₂ (fun a b => g b = f a) as bs) : bs.flatMap g = as.flatMap f := by
  induction h with
  | nil => rfl
  | cons hab _ ih => rw [List.flatMap_cons,List.flatMap_cons,hab,ih]

lemma forall₂_mem {α β : Type} {R : α → β → Prop} {as : List α} {bs : List β} (h : List.Forall₂ R as bs)
    {b : β} (hb : b ∈ bs) : ∃ a ∈ as, R a b := by
  induction h with
  | nil => simp at hb
  | @cons a c as bs hac _ ih =>
    cases List.mem_cons.mp hb with
    | inl he => exact ⟨a,List.mem_cons_self ..,he ▸ hac⟩
    | inr hm =>
      obtain ⟨x,hx,hr⟩ := ih hm
      exact ⟨x,List.mem_cons_of_mem _ hx,hr⟩

namespace Fallible
variable {ε ε' α β : Type}

lemma bind_eq_ok {x : Except ε α} {f : α → Except ε β} {b : β} :
    (x >>= f) = .ok b ↔ ∃ a, x = .ok a ∧ f a = .ok b := by
  cases x <;> simp [bind,Except.bind]

lemma bind_eq_error {x : Except ε α} {f : α → Except ε β} {e : ε} :
    (x >>= f) = .error e ↔ x = .error e ∨ ∃ a, x = .ok a ∧ f a = .error e := by
  cases x <;> simp [bind,Except.bind]

lemma map_eq_ok {x : Except ε α} {f : α → β} {b : β} : x.map f = .ok b ↔ ∃ a, x = .ok a ∧ f a = b := by
  cases x <;> simp [Except.map]

lemma pure_eq_ok {a b : α} : (pure a : Except ε α) = .ok b ↔ a = b := ⟨Except.ok.inj,congrArg _⟩

lemma mapM_eq_ok {f : α → Except ε β} {l : List α} {l' : List β} :
    l.mapM f = .ok l' ↔ l.Forall₂ (fun a b => f a = .ok b) l' := by
  induction l generalizing l' with
  | nil =>
    rw [List.mapM_nil,pure_eq_ok,List.forall₂_nil_left_iff]
    exact eq_comm
  | cons a l ih =>
    rw [List.mapM_cons,bind_eq_ok]
    constructor
    · rintro ⟨b,hb,h⟩
      obtain ⟨bs,hbs,h⟩ := bind_eq_ok.mp h
      rw [← pure_eq_ok.mp h]
      exact .cons hb (ih.mp hbs)
    · rintro (_ | ⟨hb,hbs⟩)
      exact ⟨_,hb,bind_eq_ok.mpr ⟨_,ih.mpr hbs,rfl⟩⟩

lemma exists_mapM {f : α → Except ε β} {l : List α} (h : ∀ a ∈ l, ∃ b, f a = .ok b) :
    ∃ l', l.mapM f = .ok l' := by
  simp only [mapM_eq_ok]
  induction l with
  | nil => exact ⟨[],.nil⟩
  | cons a l ih =>
    obtain ⟨⟨b,hb⟩,hl⟩ := List.forall_mem_cons.mp h
    obtain ⟨l',hl'⟩ := ih hl
    exact ⟨b::l',.cons hb hl'⟩

/-- The error does not come up, and a value that comes has the property. -/
def Avoids (e : ε) (x : Except ε α) (P : α → Prop) : Prop := x≠.error e ∧ ∀ a, x = .ok a → P a

section Avoids
variable {e e' : ε} {x : Except ε α} {f : α → Except ε β} {P : α → Prop} {Q : β → Prop}

lemma Avoids.ok {a : α} (h : P a) : Avoids e (.ok a) P := ⟨by simp,by rintro _ ⟨⟩; exact h⟩

lemma Avoids.error (h : e'≠e) : Avoids e (.error e') P := ⟨by simpa using h,by simp⟩

lemma Avoids.bind (h : Avoids e x P) (hf : ∀ a, x = .ok a → P a → Avoids e (f a) Q) :
    Avoids e (x >>= f) Q := by
  cases x with
  | error e' => exact .error fun he => h.1 (congrArg _ he)
  | ok a => exact hf a rfl (h.2 a rfl)

lemma Avoids.mapM {l : List α} {R : α → β → Prop} (h : ∀ a, Avoids e (f a) (R a)) :
    Avoids e (l.mapM f) (l.Forall₂ R) := by
  induction l with
  | nil => exact .ok .nil
  | cons a l ih =>
    rw [List.mapM_cons]
    exact (h a).bind fun b _ hb => ih.bind fun bs _ hbs => .ok (.cons hb hbs)

end Avoids
end Fallible

end Plomvix.Lib
