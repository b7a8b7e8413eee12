import Mathlib

/-! Runs of a deterministic machine against a specification given as a relation. A simulation
that one step keeps carries every run to a trace of the specification. -/
namespace Plomvix.Lib.Machine
variable {A S R M : Type} {step : A → S → R × S} {ok : A → S → Prop} {as : List A}

/-- The results of a list of actions, and the state they end in. -/
def run (step : A → S → R × S) : List A → S → List R × S
  | [],s => ([],s)
  | a::as,s => ((step a s).1::(run step as (step a s).2).1,(run step as (step a s).2).2)

/-- Every action is taken in a state where it is allowed. -/
def Allowed (step : A → S → R × S) (ok : A → S → Prop) : List A → S → Prop
  | [],_ => True
  | a::as,s => ok a s ∧ Allowed step ok as (step a s).2

instance {step : A → S → R × S} {ok : A → S → Prop} [∀ a s, Decidable (ok a s)] :
    ∀ as s, Decidable (Allowed step ok as s)
  | [],_ => inferInstanceAs (Decidable True)
  | a::as,s =>
    have : Decidable (Allowed step ok as (step a s).2) := instDecidableAllowed as (step a s).2
    inferInstanceAs (Decidable (ok a s ∧ Allowed step ok as (step a s).2))

/-- The specification admits these results for these actions. -/
inductive Trace (spec : A → M → R → M → Prop) : M → List A → List R → M → Prop
  | nil (m : M) : Trace spec m [] [] m
  | cons {m m' m'' : M} {a : A} {r : R} {as : List A} {rs : List R} (h : spec a m r m')
      (ht : Trace spec m' as rs m'') : Trace spec m (a::as) (r::rs) m''

lemma allowed_of_forall {P : A → Prop} (h : ∀ a ∈ as, P a) (s : S) :
    Allowed step (fun a _ => P a) as s := by
  induction as generalizing s with
  | nil => trivial
  | cons a as ih => exact ⟨h a (List.mem_cons_self ..),ih (fun x hx => h x (List.mem_cons_of_mem _ hx)) _⟩

/-- What every allowed step keeps holds in the end, and what every such step says of its result
holds of all. -/
theorem run_invariant {I : S → Prop} {Q : R → Prop}
    (hstep : ∀ a s, I s → ok a s → I (step a s).2 ∧ Q (step a s).1) {s : S} (hs : I s)
    (ha : Allowed step ok as s) : I (run step as s).2 ∧ ∀ r ∈ (run step as s).1, Q r := by
  induction as generalizing s with
  | nil => exact ⟨hs,by simp [run]⟩
  | cons a as ih =>
    obtain ⟨hnext,hr⟩ := hstep a s hs ha.1
    obtain ⟨hend,hrest⟩ := ih hnext ha.2
    refine ⟨hend,fun r hmem => ?_⟩
    obtain rfl | hmem := List.mem_cons.mp hmem
    exacts [hr,hrest r hmem]

lemma allowed_append {as bs : List A} {s : S} :
    Allowed step ok (as++bs) s ↔ Allowed step ok as s ∧ Allowed step ok bs (run step as s).2 := by
  induction as generalizing s with
  | nil => simp [Allowed,run]
  | cons a as ih => simp only [List.cons_append,Allowed,run,ih,and_assoc]

theorem allowed_iff {ok P Q : A → S → Prop} {I : S → Prop}
    (hstep : ∀ a s, I s → ok a s → I (step a s).2) (hiff : ∀ a s, I s → (P a s ↔ Q a s))
    {s : S} (hs : I s)
    (ha : Allowed step ok as s) : Allowed step P as s ↔ Allowed step Q as s := by
  induction as generalizing s with
  | nil => exact Iff.rfl
  | cons a as ih => exact and_congr (hiff a s hs) (ih (hstep a s hs ha.1) ha.2)

lemma allowed_and {P Q : A → S → Prop} {s : S} :
    Allowed step (fun a s => P a s ∧ Q a s) as s ↔ Allowed step P as s ∧ Allowed step Q as s := by
  induction as generalizing s with
  | nil => simp [Allowed]
  | cons a as ih =>
    simp only [Allowed,ih]
    exact and_and_and_comm

theorem run_traces {spec : A → M → R → M → Prop} {Sim : S → M → Prop}
    (hstep : ∀ a s m, Sim s m → ok a s → ∃ m', spec a m (step a s).1 m' ∧ Sim (step a s).2 m')
    {s : S} {m : M} (hs : Sim s m) (ha : Allowed step ok as s) :
    ∃ m', Trace spec m as (run step as s).1 m' ∧ Sim (run step as s).2 m' := by
  induction as generalizing s m with
  | nil => exact ⟨m,.nil m,hs⟩
  | cons a as ih =>
    obtain ⟨h,ha⟩ := ha
    obtain ⟨m',hspec,hs'⟩ := hstep a s m hs h
    obtain ⟨m'',ht,hs''⟩ := ih hs' ha
    exact ⟨m'',.cons hspec ht,hs''⟩

/-- A machine has the results of another one if each of its allowed steps has. -/
theorem run_simulates {S' : Type} {step' : A → S' → R × S'} {E : S → S' → Prop}
    (hstep : ∀ {a s s'}, E s s' → ok a s → (step a s).1 = (step' a s').1 ∧ E (step a s).2 (step' a s').2)
    {s : S} {s' : S'} (hs : E s s') (ha : Allowed step ok as s) :
    (run step as s).1 = (run step' as s').1 ∧ E (run step as s).2 (run step' as s').2 := by
  induction as generalizing s s' with
  | nil => exact ⟨rfl,hs⟩
  | cons a as ih =>
    obtain ⟨hr,hs'⟩ := hstep hs ha.1
    obtain ⟨hrest,hend⟩ := ih hs' ha.2
    exact ⟨by rw [run,run,hr,hrest],hend⟩

/-- A part of the actions has the results that it would have alone, if each of them gives the same
in states that are related and none of the others changes the relation. -/
theorem run_own {B S' : Type} {step' : B → S' → R × S'} {own : A → Option B} {E : S → S' → Prop}
    (hown : ∀ {a b s s'}, own a = some b → E s s' → (step a s).1 = (step' b s').1 ∧
      E (step a s).2 (step' b s').2)
    (hother : ∀ {a s s'}, own a = none → E s s' → E (step a s).2 s') (as : List A) {s : S} {s' : S'}
    (hs : E s s') :
    ((as.zip (run step as s).1).filterMap fun x => (own x.1).map fun _ => x.2) =
      (run step' (as.filterMap own) s').1 ∧
      E (run step as s).2 (run step' (as.filterMap own) s').2 := by
  induction as generalizing s s' with
  | nil => exact ⟨rfl,hs⟩
  | cons a as ih =>
    rw [run,List.zip_cons_cons,List.filterMap_cons,List.filterMap_cons]
    cases ha : own a with
    | none => exact ih (hother ha hs)
    | some b =>
      obtain ⟨hr,hs'⟩ := hown ha hs
      obtain ⟨hrest,hend⟩ := ih hs'
      simp only [Option.map_some,run,hrest,hr]
      exact ⟨trivial,hend⟩

end Plomvix.Lib.Machine
