import Plomvix.Lib.Machine

/-! The throttle of the server: an attempt adds one to a counter and takes it back if that was too many.
A run is any interleaving of the atomic steps of the calls. The counter is an `int64`; in a run of fewer
steps than this has values it is as good as an integer, and the accounts are about integers. -/
namespace Plomvix.Server.Throttle
open Lib

/-- The counter, and what has happened: the connections that are accepted, the calls of `TryAcquire`
before their first step and those that have to take it back, and the calls of `Release` in progress. A
call has seen whether `max` connections were accepted since it began. -/
structure State (N : Type) where
  active : N
  accepted : ℕ
  waiting : List Bool
  undoing : List Bool
  releasing : ℕ

/-- The atomic steps of callers. -/
inductive Act
  | call
  | add (i : ℕ)
  | undo (i : ℕ)
  | callRelease
  | release

section Steps
variable {N : Type} [OfNat N 0] [OfNat N 1] [Add N] [Sub N] [LE N] [LT N] [DecidableLE N] [DecidableLT N]

def newThrottle : State N := ⟨0,0,[],[],0⟩

/-- Every call in progress sees the connections of a state. -/
def State.seen (s : State N) (max : ℤ) : State N :=
  { s with
    waiting := s.waiting.map (· || decide (s.accepted = max))
    undoing := s.undoing.map (· || decide (s.accepted = max)) }

/-- The first step of `TryAcquire`: the counter, and whether the connection is accepted. Without a limit
nothing is counted. -/
def tryAcquire (max active : N) : N × Bool :=
  if max ≤ 0 then (active,true)
  else
    let cur := active+1
    (cur,!decide (cur > max))

/-- The answer of the call that ends with the step, with what it has seen. -/
def stepOn (value : N → ℤ) (max : N) : Act → State N → Option (Bool × Bool) × State N
  | .call,s => (none,State.seen { s with waiting := false::s.waiting } (value max))
  | .add i,s =>
    let full := s.waiting.getD i false
    let rest := s.waiting.eraseIdx i
    match tryAcquire max s.active with
    | (cur,true) =>
      (some (true,full),
        State.seen { s with active := cur, accepted := s.accepted+1, waiting := rest } (value max))
    | (cur,false) =>
      (none,State.seen { s with active := cur, waiting := rest, undoing := full::s.undoing } (value max))
  | .undo i,s =>
    (some (false,s.undoing.getD i false),
      State.seen { s with active := s.active-1, undoing := s.undoing.eraseIdx i } (value max))
  | .callRelease,s => (none,{ s with releasing := s.releasing+1 })
  | .release,s =>
    let rest := { s with active := s.active-1, accepted := s.accepted-1, releasing := s.releasing-1 }
    (none,State.seen rest (value max))

end Steps

/-- The counter without an overflow. -/
def step (max : ℤ) : Act → State ℤ → Option (Bool × Bool) × State ℤ := stepOn id max

lemma step_apply (max : ℤ) (a : Act) (s : State ℤ) : step max a s = stepOn id max a s := rfl

/-- The steps as the source makes them. -/
def step64 (max : Int64) : Act → State Int64 → Option (Bool × Bool) × State Int64 :=
  stepOn Int64.toInt max

section Width
variable (max : Int64) {t : State Int64}

/-- The state with the value of its counter. -/
def State.wide (t : State Int64) : State ℤ := ⟨t.active.toInt,t.accepted,t.waiting,t.undoing,t.releasing⟩

lemma toInt_add_one {a : Int64} (h : a.toInt+1 < 2^63) : (a+1).toInt = a.toInt+1 := by
  have hlow := Int64.le_toInt a
  rw [Int64.toInt_add,show (1 : Int64).toInt = 1 from rfl]
  exact Int.bmod_eq_of_le (by omega) (by omega)

lemma toInt_sub_one {a : Int64} (h : -2^63 < a.toInt) : (a-1).toInt = a.toInt-1 := by
  have hhigh := Int64.toInt_lt a
  rw [Int64.toInt_sub,show (1 : Int64).toInt = 1 from rfl]
  exact Int.bmod_eq_of_le (by omega) (by omega)

lemma tryAcquire_wide {a : Int64} (h : a.toInt+1 < 2^63) : tryAcquire max.toInt a.toInt =
    ((tryAcquire max a).1.toInt,(tryAcquire max a).2) := by
  have hlimit : max.toInt ≤ 0 ↔ max ≤ 0 := by
    rw [Int64.le_iff_toInt_le]
    rfl
  have hcur : a.toInt+1 > max.toInt ↔ a+1 > max := by
    rw [← toInt_add_one h]
    exact Int64.lt_iff_toInt_lt.symm
  simp only [tryAcquire,hlimit,hcur]
  split_ifs
  · rfl
  · rw [toInt_add_one h]

/-- While the counter is inside its range, a step is that of the integers. -/
lemma step64_wide (a : Act) (h : |t.active.toInt|+1 < 2^63) :
    (step64 max a t).1 = (step max.toInt a t.wide).1 ∧
      (step64 max a t).2.wide = (step max.toInt a t.wide).2 := by
  obtain ⟨hlow,hhigh⟩ := abs_lt.mp (lt_sub_iff_add_lt.mpr h)
  have hsub := toInt_sub_one (a := t.active) (by omega)
  cases a with
  | call => exact ⟨rfl,rfl⟩
  | callRelease => exact ⟨rfl,rfl⟩
  | undo i => exact ⟨rfl,by simp only [step64,step_apply,stepOn,State.wide,State.seen,hsub,id_eq]⟩
  | release => exact ⟨rfl,by simp only [step64,step_apply,stepOn,State.wide,State.seen,hsub,id_eq]⟩
  | add i =>
    have hacquire := tryAcquire_wide max (a := t.active) (by omega)
    simp only [step64,step_apply,stepOn,State.wide,hacquire,id_eq]
    rcases tryAcquire max t.active with ⟨cur,_ | _⟩ <;> exact ⟨rfl,rfl⟩

lemma active_step (max : ℤ) (a : Act) (s : State ℤ) : |(step max a s).2.active| ≤ |s.active|+1 := by
  have hdown : |s.active-1| ≤ |s.active|+1 := (abs_sub ..).trans_eq (by simp)
  cases a with
  | call => exact (lt_add_one _).le
  | callRelease => exact (lt_add_one _).le
  | undo i => exact hdown
  | release => exact hdown
  | add i =>
    have hup : |(tryAcquire max s.active).1| ≤ |s.active|+1 := by
      rw [tryAcquire]
      split_ifs
      · exact (lt_add_one _).le
      · exact (abs_add_le ..).trans_eq (by simp)
    rw [step_apply,stepOn]
    generalize tryAcquire max s.active = acquired at hup ⊢
    rcases acquired with ⟨cur,_ | _⟩ <;> exact hup

lemma run64_wide_from {as : List Act} (h : |t.active.toInt|+as.length < 2^63) :
    (Machine.run (step64 max) as t).1 = (Machine.run (step max.toInt) as t.wide).1 ∧
      (Machine.run (step64 max) as t).2.wide = (Machine.run (step max.toInt) as t.wide).2 := by
  induction as generalizing t with
  | nil => exact ⟨rfl,rfl⟩
  | cons a as ih =>
    rw [List.length_cons] at h
    push_cast at h
    have hroom : |t.active.toInt|+1 < 2^63 := by omega
    obtain ⟨hanswer,hstate⟩ := step64_wide max a hroom
    have hnext : |(step64 max a t).2.active.toInt| ≤ |t.active.toInt|+1 :=
      (congrArg (fun s : State ℤ => |s.active|) hstate).trans_le (active_step max.toInt a t.wide)
    obtain ⟨hanswers,hend⟩ := ih (t := (step64 max a t).2) (by omega)
    simp only [Machine.run,hanswer,hanswers,hstate,hend]
    exact ⟨trivial,trivial⟩

/-- A run of fewer steps than the counter has values is one of the integers. -/
theorem run64_wide {as : List Act} (h : as.length < 2^63) :
    (Machine.run (step64 max) as newThrottle).1 = (Machine.run (step max.toInt) as newThrottle).1 ∧
      (Machine.run (step64 max) as newThrottle).2.wide =
        (Machine.run (step max.toInt) as newThrottle).2 :=
  run64_wide_from max (by simpa [newThrottle] using h)

end Width

/-- Each accepted connection is released once. `acceptLoop` also makes one attempt after the other. -/
def Ordered {N : Type} (one : Prop) : Act → State N → Prop
  | .call,s => one → s.waiting = [] ∧ s.undoing = []
  | .add i,s => i < s.waiting.length
  | .undo i,s => i < s.undoing.length
  | .callRelease,s => s.releasing < s.accepted
  | .release,s => 0 < s.releasing

/-- No call is in progress. -/
def State.Quiet (s : State ℤ) : Prop := s.waiting = [] ∧ s.undoing = [] ∧ s.releasing = 0

/-- The attempts that have to take their step back are counted too. -/
structure Counted (max : ℤ) (one : Prop) (s : State ℤ) : Prop where
  active : s.active = s.accepted+s.undoing.length
  bounded : s.accepted ≤ max
  held : s.releasing ≤ s.accepted
  alone : one → s.waiting.length+s.undoing.length ≤ 1 ∧ ∀ full ∈ s.undoing, full = true

variable {max : ℤ} {one : Prop} {s : State ℤ}

lemma Counted.seen (h : Counted max one s) : Counted max one (s.seen max) where
  active := by simpa [State.seen] using h.active
  bounded := h.bounded
  held := h.held
  alone hone := by simpa [State.seen] using ⟨(h.alone hone).1,fun hfalse =>
    absurd ((h.alone hone).2 false hfalse) (by simp)⟩

lemma counted_step (hmax : 0 < max) {a : Act} (h : Counted max one s) (ha : Ordered one a s) :
    Counted max one (step max a s).2 ∧ ∀ full, (step max a s).1 = some (false,full) → one →
      full = true := by
  obtain ⟨hactive,hbound,hheld,halone⟩ := h
  cases a with
  | call =>
    refine ⟨Counted.seen ⟨hactive,hbound,hheld,fun hone => ?_⟩,by rintro _ ⟨⟩⟩
    simp [ha hone]
  | add i =>
    have hlen : (s.waiting.eraseIdx i).length+1 = s.waiting.length := List.length_eraseIdx_add_one ha
    rw [step_apply,stepOn,tryAcquire,if_neg hmax.not_ge]
    by_cases hcur : s.active+1 > max
    · simp only [hcur,decide_true,Bool.not_true]
      refine ⟨⟨?_,hbound,hheld,fun hone => ?_⟩,by rintro _ ⟨⟩⟩
      · simp [State.seen,hactive]
        ring
      · -- the attempt is alone, so the connections alone are too many
        have hnone : s.undoing = [] := List.length_eq_zero_iff.mp (by have := (halone hone).1; omega)
        have hfull : (s.accepted : ℤ) = max := by simp [hnone] at hactive; omega
        have hone := (halone hone).1
        refine ⟨?_,by simp [State.seen,hfull,hnone]⟩
        simp only [State.seen,List.length_map,List.length_cons,hnone,List.length_nil]
        omega
    · simp only [hcur,decide_false,Bool.not_false]
      refine ⟨Counted.seen ⟨?_,?_,?_,fun hone => ⟨?_,(halone hone).2⟩⟩,by simp⟩
      · simp only [hactive]
        push_cast
        ring
      · push_cast
        omega
      · exact Nat.le_succ_of_le hheld
      · have := (halone hone).1
        dsimp only
        omega
  | undo i =>
    have hlen : (s.undoing.eraseIdx i).length+1 = s.undoing.length := List.length_eraseIdx_add_one ha
    have hmem : s.undoing.getD i false ∈ s.undoing := by
      rw [List.getD_eq_getElem s.undoing false ha]
      exact List.getElem_mem ha
    refine ⟨Counted.seen ⟨?_,hbound,hheld,fun hone =>
      ⟨?_,fun full hfull => (halone hone).2 full (List.mem_of_mem_eraseIdx hfull)⟩⟩,?_⟩
    · dsimp only
      omega
    · have := (halone hone).1
      dsimp only
      omega
    · rintro _ ⟨⟩ hone
      exact (halone hone).2 _ hmem
  | callRelease => exact ⟨⟨hactive,hbound,Nat.succ_le_of_lt ha,halone⟩,by rintro _ ⟨⟩⟩
  | release =>
    have hpos : 0 < s.releasing := ha
    refine ⟨Counted.seen ⟨?_,?_,?_,halone⟩,by rintro _ ⟨⟩⟩
    · dsimp only
      omega
    · dsimp only
      omega
    · exact Nat.sub_le_sub_right hheld 1

lemma counted_run (hmax : 0 < max) {as : List Act}
    (ha : Machine.Allowed (step max) (Ordered one) as newThrottle) :
    Counted max one (Machine.run (step max) as newThrottle).2 ∧
      ∀ r ∈ (Machine.run (step max) as newThrottle).1, ∀ full, r = some (false,full) → one → full = true :=
  Machine.run_invariant (fun _ _ => counted_step hmax) ⟨rfl,hmax.le,le_rfl,fun _ =>
    ⟨Nat.zero_le 1,by simp [newThrottle]⟩⟩ ha

def attempts : ℕ → List Act → List Act
  | 0,as => as
  | n+1,as => .call::.add 0::attempts n as

lemma attempts_run {n k : ℕ} (hn : k+n ≤ max) (hpos : 0 < max) (as : List Act) :
    (Machine.Allowed (step max) (Ordered one) (attempts n as) ⟨k,k,[],[],0⟩ ↔
      Machine.Allowed (step max) (Ordered one) as ⟨↑(k+n),k+n,[],[],0⟩) ∧
    (Machine.run (step max) as ⟨↑(k+n),k+n,[],[],0⟩).1 ⊆
      (Machine.run (step max) (attempts n as) ⟨k,k,[],[],0⟩).1 := by
  induction n generalizing k with
  | zero => exact ⟨Iff.rfl,List.Subset.refl _⟩
  | succ n ih =>
    have hcur : ¬(k : ℤ)+1 > max := by omega
    obtain ⟨hall,hsub⟩ := ih (k := k+1) (by push_cast at hn ⊢; omega)
    rw [show k+1+n = k+(n+1) by omega,show ((k+1 : ℕ) : ℤ) = k+1 by push_cast; rfl] at hall hsub
    simp only [attempts,Machine.Allowed,Machine.run,step_apply,stepOn,tryAcquire,id_eq,State.seen,
      Ordered,if_neg hpos.not_ge,hcur,decide_false,Bool.not_false,
      List.map_cons,List.map_nil,List.eraseIdx_zero,List.tail_cons,List.length_singleton]
    refine ⟨?_,fun x hx => .tail _ (.tail _ (hsub hx))⟩
    simpa using hall

/-- The accounts are right exactly if there is a limit and no attempt begins before the last one has
ended. -/
theorem accounting_iff (max : ℤ) (one : Prop) :
    (∀ as, Machine.Allowed (step max) (Ordered one) as newThrottle →
      let (answers,s) := Machine.run (step max) as newThrottle
      (s.Quiet → s.active = s.accepted) ∧
        (0 < max → s.accepted ≤ max ∧ ∀ full, some (false,full) ∈ answers → full = true)) ↔
      0 < max ∧ one := by
  constructor
  · intro h
    have hpos : 0 < max := by
      by_contra hmax
      have hcount := (h [.call,.add 0] ⟨fun _ => ⟨rfl,rfl⟩,Nat.one_pos,trivial⟩).1
      simp [Machine.run,step_apply,stepOn,tryAcquire,State.seen,State.Quiet,not_lt.mp hmax,
        newThrottle] at hcount
    refine ⟨hpos,?_⟩
    by_contra hone
    obtain ⟨m,rfl⟩ := Int.eq_ofNat_of_zero_le hpos.le
    -- the limit is reached, an attempt is too many, and before it is taken back a connection ends
    -- and another attempt is made
    obtain ⟨hall,hsub⟩ := @attempts_run _ one m 0 (by simp) hpos [.call,.add 0,.callRelease,
      .release,.call,.add 0,.undo 0]
    have hm : m≠0 := by rintro rfl; exact lt_irrefl _ hpos
    have hless : m-1≠m := by omega
    have hfalse := ((h _ (hall.mpr ?_)).2 hpos).2 false (hsub ?_)
    · cases hfalse
    · simp [Machine.Allowed,Ordered,step_apply,stepOn,tryAcquire,State.seen,hone,hm,Nat.pos_of_ne_zero]
    · simp [Machine.run,step_apply,stepOn,tryAcquire,State.seen,hm,hless]
  · rintro ⟨hpos,hone⟩ as ha
    obtain ⟨hs,hanswers⟩ := counted_run hpos ha
    refine ⟨fun hquiet => ?_,fun _ => ⟨hs.bounded,fun full hfull => hanswers _ hfull full rfl hone⟩⟩
    rw [hs.active,hquiet.2.1]
    simp

/-- Without a limit an accepted connection is not counted; with the limit 1 a call is refused during
which no connection is accepted. -/
theorem throttle_miscounts :
    (Machine.Allowed (step 0) (Ordered True) [.call,.add 0] newThrottle ∧
      (Machine.run (step 0) [.call,.add 0] newThrottle).2.active = 0 ∧
      (Machine.run (step 0) [.call,.add 0] newThrottle).2.accepted = 1) ∧
    Machine.Allowed (step 1) (Ordered False) [.call,.add 0,.call,.add 0,.callRelease,.release,.call,
      .add 0,.undo 0] newThrottle ∧
      some (false,false) ∈ (Machine.run (step 1) [.call,.add 0,.call,.add 0,.callRelease,.release,
        .call,.add 0,.undo 0] newThrottle).1 :=
  ⟨⟨⟨fun _ => ⟨rfl,rfl⟩,Nat.one_pos,trivial⟩,rfl,rfl⟩,
    ⟨False.elim,Nat.one_pos,False.elim,Nat.one_pos,Nat.one_pos,Nat.one_pos,False.elim,Nat.one_pos,
      Nat.two_pos,trivial⟩,by decide⟩

/-- However attempts and releases overlap, no more than `max` connections are accepted, and the
counter is their number and that of the attempts that are about to take their step back; so it is
never negative. -/
theorem connections_bounded (hmax : 0 < max) {as : List Act}
    (ha : Machine.Allowed (step max) (Ordered False) as newThrottle) :
    let s := (Machine.run (step max) as newThrottle).2
    s.accepted ≤ max ∧ s.active = s.accepted+s.undoing.length ∧ s.releasing ≤ s.accepted := by
  obtain ⟨hs,-⟩ := counted_run hmax ha
  exact ⟨hs.bounded,hs.active,hs.held⟩

theorem connections_bounded_one :
    let s := (Machine.run (step 1) [.call,.call,.add 1,.add 0,.callRelease] newThrottle).2
    s.accepted ≤ (1 : ℤ) ∧ s.active = s.accepted+s.undoing.length ∧ s.releasing ≤ s.accepted :=
  connections_bounded Int.one_pos ⟨False.elim,False.elim,Nat.one_lt_two,Nat.one_pos,Nat.one_pos,trivial⟩

end Plomvix.Server.Throttle
