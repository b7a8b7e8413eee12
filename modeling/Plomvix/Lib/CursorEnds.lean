import Plomvix.Lib.Cursor

/-! Cursors that come to an end: after finitely many calls, each of which returns, the answer is the
end or an error. That a computation returns is proved together with what holds of its result, along
its steps. -/
namespace Plomvix.Lib

namespace Comp
variable {α β : Type}

def Gives (c : Comp α) (P : α → Prop) : Prop := ∃ a, c.Returns a ∧ P a

lemma Gives.pure {P : α → Prop} {a : α} (h : P a) : (Pure.pure a : Comp α).Gives P :=
  ⟨a,returns_pure.mpr rfl,h⟩

lemma Gives.bind {c : Comp α} {f : α → Comp β} {P : α → Prop} {Q : β → Prop} (hc : c.Gives P)
    (hf : ∀ a, P a → (f a).Gives Q) :
    (c >>= f).Gives Q := by
  obtain ⟨a,ha,hP⟩ := hc
  obtain ⟨b,hb,hQ⟩ := hf a hP
  exact ⟨b,returns_bind.mpr ⟨a,ha,hb⟩,hQ⟩

end Comp

namespace Cursor
open Plomvix.Lib.Comp (loop Round Gives returns_bind returns_pure loop_done loop_goOn)
variable {σ ε α β : Type}

inductive Ends (next : σ → Comp (Answer ε α × σ)) : σ → Prop
  | eof {s s' : σ} (h : (next s).Returns (.eof,s')) : Ends next s
  | err {s s' : σ} {e : ε} (h : (next s).Returns (.err e,s')) : Ends next s
  | row {s s' : σ} {a : α} (h : (next s).Returns (.row a,s')) (hs : Ends next s') : Ends next s

def AnswerEnds (next : σ → Comp (Answer ε α × σ)) : Answer ε α × σ → Prop
  | (.row _,s) => Ends next s
  | _ => True

/-- A cursor whose calls are loops, seen round by round. -/
inductive LoopEnds (body : σ → Comp (Round σ (Answer ε α × σ))) : σ → Prop
  | eof {s s' : σ} (h : (body s).Returns (.done (.eof,s'))) : LoopEnds body s
  | err {s s' : σ} {e : ε} (h : (body s).Returns (.done (.err e,s'))) : LoopEnds body s
  | row {s s' : σ} {a : α} (h : (body s).Returns (.done (.row a,s'))) (hs : LoopEnds body s') :
      LoopEnds body s
  | goOn {s s' : σ} (h : (body s).Returns (.goOn s')) (hs : LoopEnds body s') : LoopEnds body s

def RoundEnds (body : σ → Comp (Round σ (Answer ε α × σ))) : Round σ (Answer ε α × σ) → Prop
  | .goOn s => LoopEnds body s
  | .done (.row _,s) => LoopEnds body s
  | .done _ => True

section Rules
variable {next : σ → Comp (Answer ε α × σ)}
  {body : σ → Comp (Round σ (Answer ε α × σ))} {s s' : σ} {l : List α}

lemma Ends.gives (h : Ends next s) : (next s).Gives (AnswerEnds next) := by
  cases h with
  | eof h => exact ⟨_,h,trivial⟩
  | err h => exact ⟨_,h,trivial⟩
  | row h hs => exact ⟨_,h,hs⟩

lemma Ends.of_gives (h : (next s).Gives (AnswerEnds next)) : Ends next s := by
  obtain ⟨⟨r,s'⟩,hr,hs⟩ := h
  cases r with
  | eof => exact .eof hr
  | err e => exact .err hr
  | row a => exact .row hr hs

lemma LoopEnds.of_gives (h : (body s).Gives (RoundEnds body)) : LoopEnds body s := by
  obtain ⟨r,hr,hs⟩ := h
  match r,hs with
  | .goOn s',hs => exact .goOn hr hs
  | .done (.row a,s'),hs => exact .row hr hs
  | .done (.eof,s'),_ => exact .eof hr
  | .done (.err e,s'),_ => exact .err hr

lemma Ends.of_next (h : ∀ r, (next s').Returns r → (next s).Returns r) (hs : Ends next s') :
    Ends next s := by
  obtain ⟨r,hr,hP⟩ := hs.gives
  exact .of_gives ⟨r,h r hr,hP⟩

theorem LoopEnds.ends (h : LoopEnds body s) : Ends (loop body) s := by
  induction h with
  | eof h => exact .eof (loop_done h)
  | err h => exact .err (loop_done h)
  | row h _ ih => exact .row (loop_done h) ih
  | goOn h _ ih => exact ih.of_next fun r hr => loop_goOn h hr

lemma Streams.ends (h : Streams next s l s') : Ends next s := by
  obtain ⟨t,hy,he⟩ := h
  induction hy with
  | nil => exact .eof he
  | cons ha _ ih => exact .row ha (ih he)

lemma not_ends_of_rows {P : σ → Prop} (hP : ∀ s, P s → ∃ a s', (next s).Returns (.row a,s') ∧ P s')
    (hs : P s) : ¬ Ends next s := by
  intro h
  induction h with
  | eof h =>
    obtain ⟨a,t,ha,-⟩ := hP _ hs
    cases ha.unique h
  | err h =>
    obtain ⟨a,t,ha,-⟩ := hP _ hs
    cases ha.unique h
  | row h _ ih =>
    obtain ⟨a,t,ha,ht⟩ := hP _ hs
    cases ha.unique h
    exact ih ht

theorem Ends.fold_returns (f : β → α → Except ε β) (b : β) (h : Ends next s) :
    (fold next f b s).Gives fun _ => True := by
  induction h generalizing b with
  | eof h => exact ⟨_,loop_done (returns_bind.mpr ⟨_,h,returns_pure.mpr rfl⟩),trivial⟩
  | err h => exact ⟨_,loop_done (returns_bind.mpr ⟨_,h,returns_pure.mpr rfl⟩),trivial⟩
  | @row s s' a h _ ih =>
    cases hf : f b a with
    | error e =>
      refine ⟨(.error e,s'),loop_done (returns_bind.mpr ⟨_,h,?_⟩),trivial⟩
      simp only [hf]
      exact returns_pure.mpr rfl
    | ok b' =>
      obtain ⟨r,hr,-⟩ := ih b'
      refine ⟨r,loop_goOn (returns_bind.mpr ⟨_,h,?_⟩) hr,trivial⟩
      simp only [hf]
      exact returns_pure.mpr rfl

theorem Ends.filter {keep : α → Except ε Bool} (h : Ends next s) : Ends (filter next keep) s := by
  refine LoopEnds.ends ?_
  induction h with
  | eof h => exact .eof (returns_bind.mpr ⟨_,h,returns_pure.mpr rfl⟩)
  | err h => exact .err (returns_bind.mpr ⟨_,h,returns_pure.mpr rfl⟩)
  | @row s s' a h _ ih =>
    refine .of_gives (Gives.bind ⟨_,h,rfl⟩ ?_)
    rintro _ rfl
    simp only
    split
    · exact .pure trivial
    · exact .pure ih
    · exact .pure ih

theorem Ends.map {f : α → Except ε β} (h : Ends next s) : Ends (map next f) s := by
  induction h with
  | eof h => exact .eof (returns_bind.mpr ⟨_,h,returns_pure.mpr rfl⟩)
  | err h => exact .err (returns_bind.mpr ⟨_,h,returns_pure.mpr rfl⟩)
  | @row s s' a h _ ih =>
    refine .of_gives (Gives.bind ⟨_,h,rfl⟩ ?_)
    rintro _ rfl
    simp only
    split
    · exact .pure trivial
    · exact .pure ih

end Rules
end Cursor
end Plomvix.Lib
