import Mathlib

/-! Programs over a state that can stop early. A stopped program keeps the state it had
reached, so what it did before it stopped can be observed. A postcondition is one for the value and the
state at the end, and one for the reason and the state where the program stops. -/
namespace Plomvix.Lib

def Prog (σ φ α : Type) : Type := σ → Except φ α × σ

namespace Prog
variable {σ φ α β : Type} {x : Prog σ φ α} {s s' : σ} {f : α → Prog σ φ β}

protected def pure (a : α) : Prog σ φ α := fun s => (.ok a,s)

protected def bind (x : Prog σ φ α) (f : α → Prog σ φ β) : Prog σ φ β := fun s =>
  match x s with
  | (.ok a,s') => f a s'
  | (.error e,s') => (.error e,s')

instance : Monad (Prog σ φ) where
  pure := Prog.pure
  bind := Prog.bind

def stop (e : φ) : Prog σ φ α := fun s => (.error e,s)
def get : Prog σ φ σ := fun s => (.ok s,s)
def modify (f : σ → σ) : Prog σ φ Unit := fun s => (.ok (),f s)

def lift (x : Except φ α) : Prog σ φ α := fun s => (x,s)

/-- Run `x`; when it stops, run the handler for the reason. -/
def handle (x : Prog σ φ α) (h : φ → Prog σ φ α) : Prog σ φ α := fun s =>
  match x s with
  | (.ok a,s') => (.ok a,s')
  | (.error e,s') => h e s'

@[simp] lemma pure_run (a : α) (s : σ) : (pure a : Prog σ φ α) s = (.ok a,s) := rfl
@[simp] lemma stop_run (e : φ) (s : σ) : (stop e : Prog σ φ α) s = (.error e,s) := rfl
@[simp] lemma get_run (s : σ) : (get : Prog σ φ σ) s = (.ok s,s) := rfl
@[simp] lemma modify_run (f : σ → σ) (s : σ) : (modify f : Prog σ φ Unit) s = (.ok (),f s) := rfl
@[simp] lemma lift_run (x : Except φ α) (s : σ) : lift x s = (x,s) := rfl

lemma bind_ok {a : α} (h : x s = (.ok a,s')) :
    (x >>= f) s = f a s' := by
  change Prog.bind x f s = _
  rw [Prog.bind,h]

lemma bind_error {e : φ} (h : x s = (.error e,s')) : (x >>= f) s = (.error e,s') := by
  change Prog.bind x f s = _
  rw [Prog.bind,h]

lemma handle_ok {h : φ → Prog σ φ α} {a : α} (hx : x s = (.ok a,s')) :
    x.handle h s = (.ok a,s') := by rw [handle,hx]

lemma handle_error {h : φ → Prog σ φ α} {e : φ}
    (hx : x s = (.error e,s')) : x.handle h s = h e s' := by rw [handle,hx]

lemma run_ok {s : σ} {a : α} (h : (x s).1 = .ok a) : x s = (.ok a,(x s).2) := by rw [← h]

lemma of_pure_ok {a b : α} (h : (pure a : Prog σ φ α) s = (.ok b,s')) : a = b ∧ s = s' :=
  ⟨Except.ok.inj (Prod.mk.inj h).1,(Prod.mk.inj h).2⟩

lemma of_bind_ok {b : β}
    (h : (x >>= f) s = (.ok b,s')) : ∃ a s₁, x s = (.ok a,s₁) ∧ f a s₁ = (.ok b,s') := by
  cases hx : x s with
  | mk r s₁ =>
    cases r with
    | error e => rw [bind_error hx] at h; cases h
    | ok a => exact ⟨a,s₁,rfl,by rwa [bind_ok hx] at h⟩

lemma id_bind (x : Prog σ φ α) : Prog.bind x Prog.pure = x := by
  funext s
  rw [Prog.bind]
  rcases x s with ⟨_ | _,_⟩ <;> rfl

lemma assoc {γ : Type} (x : Prog σ φ α) (f : α → Prog σ φ β) (g : β → Prog σ φ γ) :
    Prog.bind (Prog.bind x f) g = Prog.bind x (fun a => Prog.bind (f a) g) := by
  funext s
  simp only [Prog.bind]
  rcases x s with ⟨_ | _,_⟩ <;> rfl

instance : LawfulMonad (Prog σ φ) := LawfulMonad.mk' _ id_bind (fun _ _ => rfl) assoc

section Postconditions
variable {x : Prog σ φ α} {s : σ} {A A' : α → σ → Prop} {B B' : φ → σ → Prop}
  {C : β → σ → Prop}

/-- From the state `s` the program ends with `A` or stops with `B`. -/
def Ends (x : Prog σ φ α) (s : σ) (A : α → σ → Prop) (B : φ → σ → Prop) : Prop :=
  match x s with
  | (.ok a,s') => A a s'
  | (.error e,s') => B e s'

lemma Ends.of_ok {a : α} {s' : σ} (hrun : x s = (.ok a,s')) (h : A a s') : Ends x s A B := by
  rw [Ends,hrun]
  exact h

lemma Ends.of_error {e : φ} {s' : σ} (hrun : x s = (.error e,s')) (h : B e s') : Ends x s A B := by
  rw [Ends,hrun]
  exact h

lemma Ends.ok (h : Ends x s A B) {a : α} {s' : σ} (hrun : x s = (.ok a,s')) : A a s' := by
    rwa [Ends,hrun] at h

lemma Ends.error (h : Ends x s A B) {e : φ} {s' : σ} (hrun : x s = (.error e,s')) : B e s' := by
    rwa [Ends,hrun] at h

lemma Ends.mono (h : Ends x s A' B') (hA : ∀ a s', A' a s' → A a s')
    (hB : ∀ e s', B' e s' → B e s') : Ends x s A B := by
  rcases hrun : x s with ⟨e | a,s'⟩
  · exact .of_error hrun (hB e s' (h.error hrun))
  · exact .of_ok hrun (hA a s' (h.ok hrun))

lemma Ends.state {P : σ → Prop} (h : Ends x s (fun _ => P) fun _ => P) : P (x s).2 := by
  rcases hrun : x s with ⟨e | a,s'⟩
  · exact h.error hrun
  · exact h.ok hrun

lemma Ends.pure {a : α} (h : A a s) : Ends (Pure.pure a) s A B := h

lemma Ends.stop {e : φ} (h : B e s) : Ends (Prog.stop e) s A B := h

lemma Ends.modify {f : σ → σ} {A : Unit → σ → Prop} (h : A () (f s)) : Ends (Prog.modify f) s A B := h

lemma Ends.bind {f : α → Prog σ φ β} (hx : Ends x s A B) (hf : ∀ a s', A a s' → Ends (f a) s' C B) :
    Ends (x >>= f) s C B := by
  rcases hrun : x s with ⟨e | a,s'⟩
  · exact .of_error (bind_error hrun) (hx.error hrun)
  · rw [Ends,bind_ok hrun]
    exact hf a s' (hx.ok hrun)

lemma Ends.get_bind {f : σ → Prog σ φ β} (h : Ends (f s) s C B) : Ends (Prog.get >>= f) s C B := h

lemma Ends.modify_bind {g : σ → σ} {f : Unit → Prog σ φ β} (h : Ends (f ()) (g s) C B) :
    Ends (Prog.modify g >>= f) s C B := h

lemma Ends.handle {h : φ → Prog σ φ α} (hx : Ends x s A B')
    (hh : ∀ e s', B' e s' → Ends (h e) s' A B) : Ends (x.handle h) s A B := by
  rcases hrun : x s with ⟨e | a,s'⟩
  · rw [Ends,handle_error hrun]
    exact hh e s' (hx.error hrun)
  · exact .of_ok (handle_ok hrun) (hx.ok hrun)

end Postconditions

end Prog
end Plomvix.Lib
