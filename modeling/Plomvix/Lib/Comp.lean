import Mathlib

/-! Computations that need not return. A computation says what it returns within a number of rounds, and
what it returns does not depend on that number. Loops are computations, and proofs about them go by what
one round does. -/
namespace Plomvix.Lib
universe u

/-- A computation that may not return. -/
structure Comp (α : Type u) where
  /-- What is returned within so many rounds. -/
  run : ℕ → Option α
  mono : ∀ {n : ℕ} {a : α}, run n = some a → run (n+1) = some a

namespace Comp
variable {α β σ : Type u}

protected def pure (a : α) : Comp α := ⟨fun _ => some a,id⟩

protected def bind (c : Comp α) (f : α → Comp β) : Comp β where
  run n := (c.run n).bind fun a => (f a).run n
  mono := by
    intro n b h
    obtain ⟨a,ha,hb⟩ := Option.bind_eq_some_iff.mp h
    exact Option.bind_eq_some_iff.mpr ⟨a,c.mono ha,(f a).mono hb⟩

instance : Monad Comp where
  pure := Comp.pure
  bind := Comp.bind

/-- One round goes on from a state or gives the result. -/
inductive Round (σ α : Type u)
  | goOn (s : σ)
  | done (a : α)

def rounds (body : σ → Comp (Round σ α)) : ℕ → σ → Option α
  | 0,_ => none
  | n+1,s =>
    match (body s).run n with
    | none => none
    | some (.goOn s') => rounds body n s'
    | some (.done a) => some a

lemma rounds_mono {body : σ → Comp (Round σ α)} {n : ℕ} {s : σ} {a : α} (h : rounds body n s = some a) :
    rounds body (n+1) s = some a := by
  induction n generalizing s with
  | zero => cases h
  | succ n ih =>
    rw [rounds] at h ⊢
    cases hb : (body s).run n with
    | none => simp [hb] at h
    | some r =>
      rw [(body s).mono hb]
      rw [hb] at h
      cases r with
      | goOn s' => exact ih h
      | done a' => exact h

def loop (body : σ → Comp (Round σ α)) (s : σ) : Comp α := ⟨fun n => rounds body n s,rounds_mono⟩

/-- With enough rounds it returns `a`. -/
def Returns (c : Comp α) (a : α) : Prop := ∃ n, c.run n = some a

lemma run_of_le {c : Comp α} {n m : ℕ} {a : α} (hnm : n ≤ m) (h : c.run n = some a) :
    c.run m = some a := by
  induction hnm with
  | refl => exact h
  | step _ ih => exact c.mono ih

lemma Returns.unique {c : Comp α} {a b : α} (ha : c.Returns a) (hb : c.Returns b) : a = b := by
  obtain ⟨n,ha⟩ := ha
  obtain ⟨m,hb⟩ := hb
  have h := run_of_le (Nat.le_max_left n m) ha
  rw [run_of_le (Nat.le_max_right n m) hb] at h
  exact (Option.some.inj h).symm

@[simp] lemma returns_pure {a b : α} : (pure a : Comp α).Returns b ↔ b = a := by
  constructor
  · rintro ⟨n,h⟩
    exact (Option.some.inj h).symm
  · rintro rfl
    exact ⟨0,rfl⟩

lemma returns_bind {c : Comp α} {f : α → Comp β} {b : β} :
    (c >>= f).Returns b ↔ ∃ a, c.Returns a ∧ (f a).Returns b := by
  constructor
  · rintro ⟨n,h⟩
    obtain ⟨a,ha,hb⟩ := Option.bind_eq_some_iff.mp h
    exact ⟨a,⟨n,ha⟩,⟨n,hb⟩⟩
  · rintro ⟨a,⟨n,ha⟩,⟨m,hb⟩⟩
    refine ⟨max n m,Option.bind_eq_some_iff.mpr ⟨a,?_,?_⟩⟩
    · exact run_of_le (Nat.le_max_left n m) ha
    · exact run_of_le (Nat.le_max_right n m) hb

lemma loop_done {body : σ → Comp (Round σ α)} {s : σ} {a : α} (h : (body s).Returns (.done a)) :
    (loop body s).Returns a := by
  obtain ⟨n,h⟩ := h
  refine ⟨n+1,?_⟩
  change rounds body (n+1) s = some a
  rw [rounds,h]

lemma loop_goOn {body : σ → Comp (Round σ α)} {s s' : σ} {a : α} (h : (body s).Returns (.goOn s'))
    (hl : (loop body s').Returns a) : (loop body s).Returns a := by
  obtain ⟨n,h⟩ := h
  obtain ⟨m,hl⟩ := hl
  refine ⟨max n m+1,?_⟩
  change rounds body (max n m+1) s = some a
  rw [rounds,run_of_le (Nat.le_max_left n m) h]
  exact run_of_le (c := loop body s') (Nat.le_max_right n m) hl

/-- A loop that returns did so after finitely many rounds: what holds of a last round and is kept by the
rounds before it holds of the loop. -/
theorem loop_induction {body : σ → Comp (Round σ α)} {motive : σ → α → Prop}
    (hdone : ∀ s a, (body s).Returns (.done a) → motive s a)
    (hgoOn : ∀ s s' a, (body s).Returns (.goOn s') → motive s' a → motive s a) {s : σ} {a : α}
    (h : (loop body s).Returns a) : motive s a := by
  obtain ⟨n,h⟩ := h
  change rounds body n s = some a at h
  induction n generalizing s with
  | zero => cases h
  | succ n ih =>
    rw [rounds] at h
    split at h
    · cases h
    · rename_i s' hb
      exact hgoOn s s' a ⟨n,hb⟩ (ih h)
    · rename_i a' hb
      obtain rfl : a' = a := Option.some.inj h
      exact hdone s a' ⟨n,hb⟩

end Comp
end Plomvix.Lib
