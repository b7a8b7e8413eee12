import Plomvix.Lib.Comp

/-! Cursors: a state that is asked for the next row until it answers that there is none. A cursor over
another one is described by what the rows of the other become. -/
namespace Plomvix.Lib
open Plomvix.Lib.Comp (loop Round returns_bind returns_pure loop_done loop_goOn loop_induction)

inductive Answer (ε α : Type)
  | eof
  | row (a : α)
  | err (e : ε)
  deriving DecidableEq

namespace Cursor
variable {σ ε α β : Type}

section Relations
variable (next : σ → Comp (Answer ε α × σ))

/-- The rows that a number of calls return one after another. -/
inductive Yields : σ → List α → σ → Prop
  | nil {s : σ} : Yields s [] s
  | cons {s s' s'' : σ} {a : α} {l : List α} (h : (next s).Returns (.row a,s'))
      (hl : Yields s' l s'') : Yields s (a::l) s''

def Streams (s : σ) (l : List α) (s' : σ) : Prop := ∃ s₁, Yields next s l s₁ ∧ (next s₁).Returns (.eof,s')

def foldBody (f : β → α → Except ε β) (p : β × σ) : Comp (Round (β × σ) (Except ε β × σ)) := do
  match ← next p.2 with
  | (.eof,s) => return .done (.ok p.1,s)
  | (.err e,s) => return .done (.error e,s)
  | (.row a,s) =>
    match f p.1 a with
    | .error e => return .done (.error e,s)
    | .ok b => return .goOn (b,s)

/-- The rows up to the end are taken in one by one; the first error ends it. -/
def fold (f : β → α → Except ε β) (b : β) (s : σ) : Comp (Except ε β × σ) := loop (foldBody next f) (b,s)

/-- All rows up to the end. -/
def collect (s : σ) : Comp (Except ε (List α) × σ) := fold next (fun l a => .ok (l++[a])) [] s

def passes : Except ε Bool → Bool
  | .ok true => true
  | _ => false

def filterBody (keep : α → Except ε Bool) (s : σ) : Comp (Round σ (Answer ε α × σ)) := do
  match ← next s with
  | (.row a,s) =>
    match keep a with
    | .error e => return .done (.err e,s)
    | .ok true => return .done (.row a,s)
    | .ok false => return .goOn s
  | (.eof,s) => return .done (.eof,s)
  | (.err e,s) => return .done (.err e,s)

/-- The next row that is kept; a row whose test fails ends the call. -/
def filter (keep : α → Except ε Bool) : σ → Comp (Answer ε α × σ) := loop (filterBody next keep)

def map (f : α → Except ε β) (s : σ) : Comp (Answer ε β × σ) := do
  match ← next s with
  | (.row a,s) =>
    match f a with
    | .error e => return (.err e,s)
    | .ok b => return (.row b,s)
  | (.eof,s) => return (.eof,s)
  | (.err e,s) => return (.err e,s)

end Relations

section Rules
variable {next : σ → Comp (Answer ε α × σ)} {s s' s'' : σ} {l l' : List α}

lemma Streams.cons {a : α} (h : (next s).Returns (.row a,s')) (hl : Streams next s' l s'') :
    Streams next s (a::l) s'' := by
  obtain ⟨s₁,hy,he⟩ := hl
  exact ⟨s₁,.cons h hy,he⟩

lemma Streams.of_items (st : ℕ → σ)
    (hrow : ∀ i a, l[i]? = some a → (next (st i)).Returns (.row a,st (i+1)))
    (hend : (next (st l.length)).Returns (.eof,s')) {i : ℕ} (hi : i ≤ l.length) :
    Streams next (st i) (l.drop i) s' := by
  induction hn : l.length-i generalizing i with
  | zero =>
    obtain rfl : i = l.length := by omega
    exact ⟨st l.length,by simpa using Yields.nil,hend⟩
  | succ n ih =>
    have hlt : i < l.length := by omega
    rw [List.drop_eq_getElem_cons hlt]
    exact (ih (by omega) (by omega)).cons (hrow i _ (List.getElem?_eq_getElem hlt))

lemma Streams.of_next (h : ∀ r, (next s').Returns r → (next s).Returns r)
    (hl : Streams next s' l s'') : Streams next s l s'' := by
  obtain ⟨s₁,hy,he⟩ := hl
  cases hy with
  | nil => exact ⟨s,.nil,h _ he⟩
  | cons ha hy => exact ⟨s₁,.cons (h _ ha) hy,he⟩

lemma Streams.of_row {a : α} (ha : (next s).Returns (.row a,s')) (h : Streams next s l s'') :
    ∃ l', l = a::l' ∧ Streams next s' l' s'' := by
  obtain ⟨t,hy,he⟩ := h
  cases hy with
  | nil => cases (Prod.mk.inj (ha.unique he)).1
  | cons hb hy =>
    obtain ⟨heq,rfl⟩ := Prod.mk.inj (ha.unique hb)
    cases heq
    exact ⟨_,rfl,t,hy,he⟩

lemma Streams.not_err {e : ε} (he : (next s).Returns (.err e,s')) : ¬ Streams next s l s'' := by
  rintro ⟨t,hy,hend⟩
  cases hy with
  | nil => cases (Prod.mk.inj (he.unique hend)).1
  | cons hb _ => cases (Prod.mk.inj (he.unique hb)).1

lemma Streams.unique {s₁ s₂ : σ} (h : Streams next s l s₁) (h' : Streams next s l' s₂) :
    l = l' ∧ s₁ = s₂ := by
  obtain ⟨t,hy,he⟩ := h
  induction hy generalizing l' with
  | nil =>
    obtain ⟨t',hy',he'⟩ := h'
    cases hy' with
    | nil => exact ⟨rfl,(Prod.mk.inj (he.unique he')).2⟩
    | cons hb _ => cases (Prod.mk.inj (he.unique hb)).1
  | cons ha _ ih =>
    obtain ⟨t',hy',he'⟩ := h'
    cases hy' with
    | nil => cases (Prod.mk.inj (ha.unique he')).1
    | cons hb hy' =>
      obtain ⟨heq,rfl⟩ := Prod.mk.inj (ha.unique hb)
      cases heq
      have hrest := ih ⟨t',hy',he'⟩ he
      exact ⟨congrArg _ hrest.1,hrest.2⟩

lemma foldBody_done {f : β → α → Except ε β} {b b' : β}
    (h : (foldBody next f (b,s)).Returns (.done (.ok b',s'))) :
    b' = b ∧ (next s).Returns (.eof,s') := by
  obtain ⟨⟨a,t⟩,hnext,hround⟩ := returns_bind.mp h
  cases a with
  | eof =>
    cases returns_pure.mp hround
    exact ⟨rfl,hnext⟩
  | err e => cases returns_pure.mp hround
  | row a =>
    simp only at hround
    split at hround <;> cases returns_pure.mp hround

lemma foldBody_goOn {f : β → α → Except ε β} {b b' : β}
    (h : (foldBody next f (b,s)).Returns (.goOn (b',s'))) :
    ∃ a, (next s).Returns (.row a,s') ∧ f b a = .ok b' := by
  obtain ⟨⟨a,t⟩,hnext,hround⟩ := returns_bind.mp h
  cases a with
  | eof => cases returns_pure.mp hround
  | err e => cases returns_pure.mp hround
  | row a =>
    simp only at hround
    split at hround
    · cases returns_pure.mp hround
    · cases returns_pure.mp hround
      exact ⟨a,hnext,by assumption⟩

theorem fold_ok {f : β → α → Except ε β} {b b' : β} (h : (fold next f b s).Returns (.ok b',s')) :
    ∃ l, Streams next s l s' ∧ l.foldlM f b = .ok b' := by
  refine loop_induction (motive := fun p q => ∀ b', q.1 = .ok b' → ∃ l, Streams next p.2 l q.2 ∧
    l.foldlM f p.1 = .ok b')
    ?_ ?_ h b' rfl
  · rintro ⟨b,s⟩ ⟨r,s'⟩ hbody b' hr
    cases hr
    obtain ⟨rfl,heof⟩ := foldBody_done hbody
    exact ⟨[],⟨s,.nil,heof⟩,rfl⟩
  · rintro ⟨b,s⟩ ⟨b₁,s₁⟩ ⟨r,s'⟩ hbody ih b' hr
    obtain ⟨a,ha,hf⟩ := foldBody_goOn hbody
    obtain ⟨l,hl,hfold⟩ := ih b' hr
    exact ⟨a::l,hl.cons ha,by simpa [List.foldlM_cons,hf,bind,Except.bind] using hfold⟩

theorem fold_returns {f : β → α → Except ε β} {b b' : β} (hl : Streams next s l s')
    (hfold : l.foldlM f b = .ok b') :
    (fold next f b s).Returns (.ok b',s') := by
  obtain ⟨t,hy,he⟩ := hl
  induction hy generalizing b with
  | nil =>
    cases hfold
    exact loop_done (returns_bind.mpr ⟨_,he,returns_pure.mpr rfl⟩)
  | @cons s s₁ s₂ a l ha _ ih =>
    rw [List.foldlM_cons] at hfold
    cases hf : f b a with
    | error e =>
      rw [hf] at hfold
      cases hfold
    | ok b₁ =>
      rw [hf] at hfold
      have hbody : (foldBody next f (b,s)).Returns (.goOn (b₁,s₁)) := by
        refine returns_bind.mpr ⟨_,ha,?_⟩
        simp only [hf]
        exact returns_pure.mpr rfl
      exact loop_goOn hbody (ih hfold he)

lemma foldlM_collect (l l₀ : List α) :
    l.foldlM (fun l a => (.ok (l++[a]) : Except ε (List α))) l₀ = .ok (l₀++l) := by
  induction l generalizing l₀ with
  | nil => simp [pure,Except.pure]
  | cons a l ih => simp [List.foldlM_cons,bind,Except.bind,ih]

lemma collect_ok {r : List α} (h : (collect next s).Returns (.ok r,s')) : Streams next s r s' := by
  obtain ⟨l,hl,hfold⟩ := fold_ok h
  rw [foldlM_collect,List.nil_append] at hfold
  cases hfold
  exact hl

lemma collect_returns (h : Streams next s l s') : (collect next s).Returns (.ok l,s') :=
  fold_returns h (foldlM_collect l [])

@[simp] lemma passes_true : passes (.ok true : Except ε Bool) = true := rfl
@[simp] lemma passes_false : passes (.ok false : Except ε Bool) = false := rfl

theorem filter_streams {keep : α → Except ε Bool} (h : Streams next s l s')
    (hok : ∀ x ∈ l, ∃ b, keep x = .ok b) :
    Streams (filter next keep) s (l.filter (passes <| keep ·)) s' := by
  obtain ⟨t,hy,he⟩ := h
  induction hy with
  | nil => exact ⟨_,.nil,loop_done (returns_bind.mpr ⟨_,he,returns_pure.mpr rfl⟩)⟩
  | @cons s s₁ s₂ a l ha _ ih =>
    have hrest := ih (fun x hx => hok x (List.mem_cons_of_mem _ hx)) he
    obtain ⟨b,hb⟩ := hok a (List.mem_cons_self ..)
    cases b with
    | true =>
      rw [List.filter_cons_of_pos (by simp [hb])]
      refine hrest.cons (loop_done (returns_bind.mpr ⟨_,ha,?_⟩))
      simp only [hb]
      exact returns_pure.mpr rfl
    | false =>
      rw [List.filter_cons_of_neg (by simp [hb])]
      refine hrest.of_next fun r hr => loop_goOn (returns_bind.mpr ⟨_,ha,?_⟩) hr
      simp only [hb]
      exact returns_pure.mpr rfl

theorem map_streams {f : α → Except ε β} {r : List β} (h : Streams next s l s')
    (hf : l.Forall₂ (fun a b => f a = .ok b) r) :
    Streams (map next f) s r s' := by
  obtain ⟨t,hy,he⟩ := h
  induction hy generalizing r with
  | nil =>
    cases hf
    exact ⟨_,.nil,returns_bind.mpr ⟨_,he,returns_pure.mpr rfl⟩⟩
  | cons ha _ ih =>
    cases hf with
    | cons hb hf =>
      refine (ih hf he).cons (returns_bind.mpr ⟨_,ha,?_⟩)
      simp only [hb]
      exact returns_pure.mpr rfl

end Rules
end Cursor
end Plomvix.Lib
