import Plomvix.Lib.Machine
import Plomvix.Planner.Mutations
import Plomvix.Planner.Stored

/-! When a row ID is stale: the heap of a table with its pins, the scans over it and the mutable
views made of it, one atomic access of the shared counters at a time. Calls interleave freely
between these accesses. -/
namespace Plomvix.Planner.RowIdentity
open Lib Engine

def errVacuumBlockedByActivePins : Err :=
  .format "sql engine: vacuum compaction blocked by active DML pins" []

/-- A `rowsAdapter`. The IDs it emitted, that it was closed, and that a bump succeeded since it was
opened are history. -/
structure Iter where
  gen : UInt64
  counter : UInt64
  emitted : List UInt64
  closed : Bool
  bumped : Bool
  deriving DecidableEq

/-- A `BumpGeneration` that found no pin and has not added yet, and how many scans were opened
before it looked. -/
structure Bump where
  view : ℕ
  seen : ℕ
  deriving DecidableEq

inductive Phase
  | pinned | locked | rejected | unlocked
  deriving DecidableEq

/-- A `DeleteByRowID`, `UpdateByRowID` or `BatchMutate` that has not returned. A check that rejects
is its last; what it returns in the end is `batchMutate`'s. -/
structure Mutating where
  view : ℕ
  phase : Phase
  deriving DecidableEq

/-- The `tableHeapAdapter`, the generations of the views `AsMutable` made of it, and the calls under
way. -/
structure State where
  heapGeneration : UInt64
  activePins : Int64
  views : List UInt64
  scanning : ℕ
  iters : List Iter
  bumping : List Bump
  mutating : List Mutating
  deriving DecidableEq

def fresh : State := ⟨0,0,[],0,[],[],[]⟩

/-- The atomic steps of scans, writers and bumps. -/
inductive Act
  | asMutable
  | scanPin | scanOpen | scanFail
  | next (i : ℕ)
  | close (i : ℕ)
  | bumpLoad (v : ℕ)
  | bumpAdd (b : ℕ)
  | checkWriteConflict (v i k : ℕ)
  | mutatePin (v : ℕ)
  | mutateLock (c : ℕ)
  | mutateCheck (c i k : ℕ)
  | mutateUnlock (c : ℕ)
  | mutateUnpin (c : ℕ)
  deriving DecidableEq

def checkWriteConflictLocked (heapGeneration rowID : UInt64) : Except Err Unit := do
  let gen ← rowGeneration rowID
  if gen≠heapGeneration then .error errStaleRowID else .ok ()

def Iter.next (it : Iter) : Except Err Unit × Iter :=
  match encodeRowID it.gen it.counter with
  | .error e => (.error e,{ it with counter := it.counter+1 })
  | .ok rowID => (.ok (),{ it with counter := it.counter+1, emitted := it.emitted++[rowID] })

/-- A call has the mutex from its lock to its unlock. -/
def Mutating.holds (m : Mutating) : Bool := m.phase = .locked || m.phase = .rejected

def State.mu (s : State) : Bool := s.mutating.any Mutating.holds

/-- A row ID under the generation check: the counter of the view it came to, and the scan that
emitted it. -/
structure Asked where
  generation : UInt64
  iter : Iter
  rowID : UInt64

def State.presented (s : State) (v i k : ℕ) : Option Asked := do
  let generation ← s.views[v]?
  let iter ← s.iters[i]?
  let rowID ← iter.emitted[k]?
  return ⟨generation,iter,rowID⟩

def State.asked (s : State) : Act → Option Asked
  | .checkWriteConflict v i k => if s.mu then none else s.presented v i k
  | .mutateCheck c i k => do
    let m ← s.mutating[c]?
    if m.phase = .locked then s.presented m.view i k else none
  | _ => none

def setPhase (s : State) (c : ℕ) (m : Mutating) (phase : Phase) : State :=
  { s with mutating := s.mutating.set c { m with phase := phase } }

/-- What a call returns at the action, if it does, and the state after it. An action that is not
possible changes nothing. -/
def step (a : Act) (s : State) : Option (Except Err Unit) × State :=
  match a with
  | .asMutable => (none,{ s with views := s.views++[0] })
  | .scanPin => (none,{ s with activePins := s.activePins+1, scanning := s.scanning+1 })
  | .scanOpen =>
    if s.scanning = 0 then (none,s)
    else (some (.ok ()),{ s with
      scanning := s.scanning-1, iters := s.iters++[⟨s.heapGeneration,0,[],false,false⟩] })
  | .scanFail =>
    if s.scanning = 0 then (none,s)
    else (some (.error .source),{ s with activePins := s.activePins-1, scanning := s.scanning-1 })
  | .next i =>
    match s.iters[i]? with
    | none => (none,s)
    | some it => (some it.next.1,{ s with iters := s.iters.set i it.next.2 })
  | .close i =>
    match s.iters[i]? with
    | none => (none,s)
    | some it =>
      (some (.ok ()),{ s with
        activePins := s.activePins-1, iters := s.iters.set i { it with closed := true } })
  | .bumpLoad v =>
    if s.views.length ≤ v then (none,s)
    else if s.activePins≠0 then (some (.error errVacuumBlockedByActivePins),s)
    else (none,{ s with bumping := s.bumping++[⟨v,s.iters.length⟩] })
  | .bumpAdd b =>
    match s.bumping[b]? with
    | none => (none,s)
    | some bump =>
      (some (.ok ()),{ s with
        views := s.views.modify bump.view (·+1)
        iters := s.iters.map fun it => { it with bumped := true }
        bumping := s.bumping.eraseIdx b })
  | .checkWriteConflict v i k =>
    match s.asked (.checkWriteConflict v i k) with
    | none => (none,s)
    | some x => (some (checkWriteConflictLocked x.generation x.rowID),s)
  | .mutatePin v =>
    if s.views.length ≤ v then (none,s)
    else (none,{ s with activePins := s.activePins+1, mutating := s.mutating++[⟨v,.pinned⟩] })
  | .mutateLock c =>
    match s.mutating[c]? with
    | none => (none,s)
    | some m => if m.phase = .pinned ∧ ¬ s.mu then (none,setPhase s c m .locked) else (none,s)
  | .mutateCheck c i k =>
    match s.mutating[c]?,s.asked (.mutateCheck c i k) with
    | some m,some x =>
      match checkWriteConflictLocked x.generation x.rowID with
      | .ok () => (some (.ok ()),s)
      | .error e => (some (.error e),setPhase s c m .rejected)
    | _,_ => (none,s)
  | .mutateUnlock c =>
    match s.mutating[c]? with
    | none => (none,s)
    | some m => if m.holds then (none,setPhase s c m .unlocked) else (none,s)
  | .mutateUnpin c =>
    match s.mutating[c]? with
    | none => (none,s)
    | some m =>
      if m.phase = .unlocked then
        (none,{ s with activePins := s.activePins-1, mutating := s.mutating.eraseIdx c })
      else (none,s)

def State.adding (s : State) : Act → Option Bump
  | .bumpAdd b => s.bumping[b]?
  | _ => none

/-- A row ID is accepted exactly if no bump succeeded since its scan was opened, and no bump
succeeds while a scan is open. -/
def Right (a : Act) (s : State) : Prop :=
  (∀ x ∈ s.asked a, ((step a s).1 = some (.ok ()) ↔ x.iter.bumped = false)) ∧
  ((s.adding a).isSome → (step a s).1 = some (.ok ()) → ∀ it ∈ s.iters, it.closed = true)

instance (a : Act) (s : State) : Decidable (Right a s) := inferInstanceAs (Decidable (_ ∧ _))

/-- The pins that are held: by the scans being opened, by the open ones, and by the mutations. -/
def State.held (s : State) : ℕ := s.scanning+s.iters.countP (!·.closed)+s.mutating.length

/-- No scan is closed twice, and there are fewer pins than the counter can tell apart. -/
def Orderly (a : Act) (s : State) : Prop :=
  match a with
  | .close i => ∀ it ∈ s.iters[i]?, it.closed = false
  | .bumpLoad _ => s.held < 2^64
  | _ => True

instance (a : Act) (s : State) : Decidable (Orderly a s) :=
  match a with
  | .close i => inferInstanceAs (Decidable (∀ it ∈ s.iters[i]?, it.closed = false))
  | .bumpLoad _ => inferInstanceAs (Decidable (s.held < 2^64))
  | .asMutable | .scanPin | .scanOpen | .scanFail | .next _ | .bumpAdd _ | .checkWriteConflict
      .. | .mutatePin _ | .mutateLock _
  | .mutateCheck .. | .mutateUnlock _ | .mutateUnpin _ => inferInstanceAs (Decidable True)

/-- A view that was never bumped is asked for the row IDs of the scans that no bump came after, any
other view for the rest; and a bump adds when the scans opened since it looked at the pins are
closed. -/
def Timely (a : Act) (s : State) : Prop :=
  (∀ x ∈ s.asked a, (x.generation = 0 ↔ x.iter.bumped = false)) ∧
  ∀ bump ∈ s.adding a, ∀ it ∈ s.iters.drop bump.seen, it.closed = true

instance (a : Act) (s : State) : Decidable (Timely a s) := inferInstanceAs (Decidable (_ ∧ _))

section RowID

lemma rowGeneration_encodeRowID {offset rowID : UInt64} (h : encodeRowID 0 offset = .ok rowID) :
    rowGeneration rowID = .ok 0 := by
  obtain ⟨-,hoffset⟩ := encodeRowID_ok_iff.mp ⟨rowID,h⟩
  have hid : rowID = offset+1 := by
    rw [encodeRowID,if_neg (by decide),if_neg (not_lt.mpr hoffset)] at h
    simpa using (Except.ok.inj h).symm
  have hnat : rowID.toNat = offset.toNat+1 := by
    have := UInt64.le_iff_toNat_le.mp hoffset
    rw [hid,UInt64.toNat_add]
    simp at this ⊢
    omega
  have hlow : rowID.toNat < 2^32 := by
    have := UInt64.le_iff_toNat_le.mp hoffset
    simp at this
    omega
  have hmask : (rowID &&& 0xFFFFFFFF).toNat = rowID.toNat := by
    rw [UInt64.toNat_and]
    exact (Nat.and_two_pow_sub_one_eq_mod rowID.toNat 32).trans (Nat.mod_eq_of_lt hlow)
  have hne : rowID &&& 0xFFFFFFFF ≠ 0 := by
    intro hzero
    rw [hzero] at hmask
    simp at hmask
    omega
  have hshift : rowID>>>32 = 0 := by
    apply UInt64.toNat_inj.mp
    rw [UInt64.toNat_shiftRight]
    exact Nat.shiftRight_eq_zero _ _ hlow
  rw [rowGeneration,if_neg hne,hshift]

lemma checkWriteConflictLocked_eq_ok {generation rowID : UInt64} (h : rowGeneration rowID = .ok 0) :
    checkWriteConflictLocked generation rowID = .ok () ↔ generation = 0 := by
  rw [checkWriteConflictLocked,h]
  by_cases hzero : generation = 0
  · subst hzero
    exact ⟨fun _ => rfl,fun _ => rfl⟩
  · have hne : (0 : UInt64)≠generation := Ne.symm hzero
    simp [hne,hzero,bind,Except.bind]

end RowID

/-- The scans emit the generation of the heap, which nothing changes. -/
structure Iter.Unbumped (it : Iter) : Prop where
  gen : it.gen = 0
  emitted : ∀ rowID ∈ it.emitted, rowGeneration rowID = .ok 0

/-- The generation stays zero, and there is a pin for each holder. -/
structure Inv (s : State) : Prop where
  generation : s.heapGeneration = 0
  unbumped : ∀ it ∈ s.iters, it.Unbumped
  pins : s.activePins = Int64.ofNat s.held
  seen : ∀ bump ∈ s.bumping, bump.seen ≤ s.iters.length ∧ ∀ it ∈ s.iters.take bump.seen, it.closed = true

lemma inv_fresh : Inv fresh := ⟨rfl,by simp [fresh],rfl,by simp [fresh]⟩

section Pins

lemma Inv.pins_up {s s' : State} (h : Inv s) (hheld : s'.held = s.held+1) :
    s.activePins+1 = Int64.ofNat s'.held := by
  rw [hheld,Int64.ofNat_add,h.pins]
  rfl

lemma Inv.pins_down {s s' : State} (h : Inv s) (hheld : s.held = s'.held+1) :
    s.activePins-1 = Int64.ofNat s'.held := by
  rw [h.pins,hheld,Int64.ofNat_add]
  exact Int64.add_sub_cancel ..

lemma eq_zero_of_ofNat {n : ℕ} (hn : n < 2^64) (h : Int64.ofNat n = 0) : n = 0 := by
  have hmod : n%2^64 = 0 := by simpa using congrArg (fun i : Int64 => i.toBitVec.toNat) h
  rwa [Nat.mod_eq_of_lt hn] at hmod

end Pins

section Iterators
variable {s : State} {i : ℕ} {it it' : Iter}

lemma next_unbumped (h : it.Unbumped) : it.next.2.Unbumped := by
  rw [Iter.next]
  cases hid : encodeRowID it.gen it.counter with
  | error e => exact ⟨h.gen,h.emitted⟩
  | ok rowID =>
    refine ⟨h.gen,fun x hx => ?_⟩
    rw [h.gen] at hid
    obtain hx | hx := List.mem_append.mp hx
    · exact h.emitted x hx
    · rw [List.mem_singleton.mp hx]
      exact rowGeneration_encodeRowID hid

lemma next_closed : it.next.2.closed = it.closed := by
  rw [Iter.next]
  split <;> rfl

lemma forall_set {P : Iter → Prop} (h : ∀ x ∈ s.iters, P x) (hit : P it') :
    ∀ x ∈ s.iters.set i it', P x := by
  intro x hx
  obtain hx | rfl := List.mem_or_eq_of_mem_set hx
  exacts [h x hx,hit]

lemma seen_set (hseen : ∀ bump ∈ s.bumping, bump.seen ≤ s.iters.length ∧
      ∀ it ∈ s.iters.take bump.seen, it.closed = true)
    (hi : s.iters[i]? = some it) (hclosed : it.closed = true → it'.closed = true) :
    ∀ bump ∈ s.bumping, bump.seen ≤ (s.iters.set i it').length ∧
      ∀ x ∈ (s.iters.set i it').take bump.seen, x.closed = true := by
  intro bump hbump
  obtain ⟨hlen,hall⟩ := hseen bump hbump
  refine ⟨by simpa using hlen,fun x hx => ?_⟩
  rw [List.take_set] at hx
  by_cases hlt : i < bump.seen
  · obtain hx | rfl := List.mem_or_eq_of_mem_set hx
    · exact hall x hx
    · exact hclosed (hall it (List.mem_of_getElem? (by rwa [List.getElem?_take_of_lt hlt])))
  · rw [List.set_eq_of_length_le (by simp; omega)] at hx
    exact hall x hx

lemma countP_set_open (hi : s.iters[i]? = some it) (hsame : it'.closed = it.closed) :
    (s.iters.set i it').countP (!·.closed) = s.iters.countP (!·.closed) := by
  obtain ⟨hlt,hget⟩ := List.getElem?_eq_some_iff.mp hi
  have hpos : it.closed = false → 0 < s.iters.countP (!·.closed) := by
    intro hopen
    exact List.countP_pos_iff.mpr ⟨it,List.mem_of_getElem? hi,by simp [hopen]⟩
  rw [List.countP_set hlt,hget,hsame]
  cases hc : it.closed with
  | true => simp
  | false =>
    have := hpos hc
    simp
    omega

lemma countP_set_close (hi : s.iters[i]? = some it) (hopen : it.closed = false) :
    s.iters.countP (!·.closed) = (s.iters.set i { it with closed := true }).countP (!·.closed)+1 := by
  obtain ⟨hlt,hget⟩ := List.getElem?_eq_some_iff.mp hi
  have hpos : 0 < s.iters.countP (!·.closed) :=
    List.countP_pos_iff.mpr ⟨it,List.mem_of_getElem? hi,by simp [hopen]⟩
  rw [List.countP_set hlt,hget]
  simp [hopen]
  omega

end Iterators

section Step
variable {s : State}

lemma Inv.setPhase (h : Inv s) (c : ℕ) (m : Mutating) (phase : Phase) : Inv (setPhase s c m phase) :=
  ⟨h.generation,h.unbumped,by simpa [RowIdentity.setPhase,State.held] using h.pins,h.seen⟩

lemma inv_scanPin (h : Inv s) : Inv (step .scanPin s).2 := by
  refine ⟨h.generation,h.unbumped,h.pins_up ?_,h.seen⟩
  simp only [step,State.held]
  omega

lemma inv_scanOpen (h : Inv s) : Inv (step .scanOpen s).2 := by
  by_cases hnone : s.scanning = 0
  · simpa [step,hnone] using h
  · simp only [step,if_neg hnone]
    refine ⟨h.generation,fun it hit => ?_,?_,fun bump hbump => ?_⟩
    · obtain hit | hit := List.mem_append.mp hit
      · exact h.unbumped it hit
      · rw [List.mem_singleton.mp hit]
        exact ⟨h.generation,by simp⟩
    · rw [h.pins]
      congr 1
      simp only [State.held,List.countP_append,List.countP_singleton]
      simp
      omega
    · obtain ⟨hlen,hall⟩ := h.seen bump hbump
      refine ⟨by simp; omega,fun it hit => hall it ?_⟩
      rwa [List.take_append_of_le_length hlen] at hit

lemma inv_scanFail (h : Inv s) : Inv (step .scanFail s).2 := by
  by_cases hnone : s.scanning = 0
  · simpa [step,hnone] using h
  · simp only [step,if_neg hnone]
    refine ⟨h.generation,h.unbumped,h.pins_down ?_,h.seen⟩
    simp only [State.held]
    omega

lemma inv_next (h : Inv s) (i : ℕ) : Inv (step (.next i) s).2 := by
  rw [step]
  cases hi : s.iters[i]? with
  | none => exact h
  | some it =>
    refine ⟨h.generation,
      forall_set h.unbumped (next_unbumped (h.unbumped it (List.mem_of_getElem? hi))),?_,
      seen_set h.seen hi fun hc => next_closed.trans hc⟩
    simp only [State.held,countP_set_open hi next_closed]
    exact h.pins

lemma inv_close (h : Inv s) {i : ℕ} (hopen : ∀ it ∈ s.iters[i]?, it.closed = false) :
    Inv (step (.close i) s).2 := by
  rw [step]
  cases hi : s.iters[i]? with
  | none => exact h
  | some it =>
    have hit := h.unbumped it (List.mem_of_getElem? hi)
    refine ⟨h.generation,forall_set h.unbumped ⟨hit.gen,hit.emitted⟩,h.pins_down ?_,
      seen_set h.seen hi fun _ => rfl⟩
    have := countP_set_close hi (hopen it hi)
    simp only [State.held]
    omega

lemma inv_bumpLoad (h : Inv s) (v : ℕ) (hheld : s.held < 2^64) : Inv (step (.bumpLoad v) s).2 := by
  rw [step]
  split_ifs with hview hpins
  · exact h
  · exact h
  · refine ⟨h.generation,h.unbumped,h.pins,fun bump hbump => ?_⟩
    obtain hbump | hbump := List.mem_append.mp hbump
    · exact h.seen bump hbump
    · rw [List.mem_singleton.mp hbump]
      refine ⟨le_rfl,fun it hit => ?_⟩
      have hzero : s.held = 0 := eq_zero_of_ofNat hheld (h.pins.symm.trans (not_not.mp hpins))
      have hnone : s.iters.countP (!·.closed) = 0 := by
        rw [State.held] at hzero
        omega
      simpa using List.countP_eq_zero.mp hnone it (List.mem_of_mem_take hit)

lemma inv_bumpAdd (h : Inv s) (b : ℕ) : Inv (step (.bumpAdd b) s).2 := by
  rw [step]
  cases hb : s.bumping[b]? with
  | none => exact h
  | some bump =>
    refine ⟨h.generation,fun it hit => ?_,?_,fun bump' hbump => ?_⟩
    · obtain ⟨it',hmem,rfl⟩ := List.mem_map.mp hit
      exact ⟨(h.unbumped it' hmem).gen,(h.unbumped it' hmem).emitted⟩
    · rw [h.pins]
      simp only [State.held,List.countP_map]
      rfl
    · obtain ⟨hlen,hall⟩ := h.seen bump' (List.mem_of_mem_eraseIdx hbump)
      refine ⟨by simpa using hlen,fun it hit => ?_⟩
      rw [← List.map_take] at hit
      obtain ⟨it',hmem,rfl⟩ := List.mem_map.mp hit
      exact hall it' hmem

lemma inv_mutatePin (h : Inv s) (v : ℕ) : Inv (step (.mutatePin v) s).2 := by
  rw [step]
  split_ifs
  · exact h
  · refine ⟨h.generation,h.unbumped,h.pins_up ?_,h.seen⟩
    simp only [State.held,List.length_append,List.length_singleton]
    omega

lemma inv_mutateUnpin (h : Inv s) (c : ℕ) : Inv (step (.mutateUnpin c) s).2 := by
  rw [step]
  cases hc : s.mutating[c]? with
  | none => exact h
  | some m =>
    dsimp only
    split_ifs
    · refine ⟨h.generation,h.unbumped,h.pins_down ?_,h.seen⟩
      obtain ⟨hlt,-⟩ := List.getElem?_eq_some_iff.mp hc
      simp only [State.held,List.length_eraseIdx_of_lt hlt]
      omega
    · exact h

theorem inv_step {a : Act} (h : Inv s) (ha : Orderly a s) : Inv (step a s).2 := by
  cases a with
  | asMutable => exact ⟨h.generation,h.unbumped,h.pins,h.seen⟩
  | scanPin => exact inv_scanPin h
  | scanOpen => exact inv_scanOpen h
  | scanFail => exact inv_scanFail h
  | next i => exact inv_next h i
  | close i => exact inv_close h ha
  | bumpLoad v => exact inv_bumpLoad h v ha
  | bumpAdd b => exact inv_bumpAdd h b
  | checkWriteConflict v i k =>
    rw [step]
    split <;> exact h
  | mutatePin v => exact inv_mutatePin h v
  | mutateLock c =>
    rw [step]
    split
    · exact h
    · split_ifs
      exacts [h.setPhase ..,h]
  | mutateCheck c i k =>
    rw [step]
    split
    · split
      exacts [h,h.setPhase ..]
    · exact h
  | mutateUnlock c =>
    rw [step]
    split
    · exact h
    · split_ifs
      exacts [h.setPhase ..,h]
  | mutateUnpin c => exact inv_mutateUnpin h c

lemma mem_of_presented {v i k : ℕ} {x : Asked} (hx : s.presented v i k = some x) :
    x.iter ∈ s.iters ∧ x.rowID ∈ x.iter.emitted := by
  simp only [State.presented,Option.bind_eq_bind,Option.bind_eq_some_iff,pure,Option.some.injEq] at hx
  obtain ⟨generation,-,it,hi,rowID,hk,rfl⟩ := hx
  exact ⟨List.mem_of_getElem? hi,List.mem_of_getElem? hk⟩

lemma mem_of_asked {a : Act} {x : Asked} (hx : s.asked a = some x) :
    x.iter ∈ s.iters ∧ x.rowID ∈ x.iter.emitted := by
  cases a with
  | checkWriteConflict v i k =>
    rw [State.asked] at hx
    split_ifs at hx
    exact mem_of_presented hx
  | mutateCheck c i k =>
    simp only [State.asked,Option.bind_eq_bind,Option.bind_eq_some_iff] at hx
    obtain ⟨m,-,hx⟩ := hx
    split_ifs at hx
    exact mem_of_presented hx
  | _ => cases hx

lemma step_of_asked {a : Act} {x : Asked} (hx : s.asked a = some x) :
    (step a s).1 = some (checkWriteConflictLocked x.generation x.rowID) := by
  cases a with
  | checkWriteConflict v i k => rw [step,hx]
  | mutateCheck c i k =>
    cases hc : s.mutating[c]? with
    | none => simp [State.asked,hc] at hx
    | some m =>
      rw [step,hc,hx]
      cases hcheck : checkWriteConflictLocked x.generation x.rowID with
      | ok u => simp [hcheck]
      | error e => simp [hcheck]
  | _ => cases hx

lemma accepted_iff (h : Inv s) {a : Act} {x : Asked} (hx : s.asked a = some x) :
    (step a s).1 = some (.ok ()) ↔ x.generation = 0 := by
  obtain ⟨hiter,hid⟩ := mem_of_asked hx
  rw [step_of_asked hx,Option.some.injEq]
  exact checkWriteConflictLocked_eq_ok ((h.unbumped _ hiter).emitted _ hid)

lemma closed_iff (h : Inv s) {bump : Bump} (hbump : bump ∈ s.bumping) :
    (∀ it ∈ s.iters, it.closed = true) ↔ ∀ it ∈ s.iters.drop bump.seen, it.closed = true := by
  constructor
  · intro hall it hit
    exact hall it (List.mem_of_mem_drop hit)
  · intro hlater it hit
    rw [← List.take_append_drop bump.seen s.iters] at hit
    obtain hit | hit := List.mem_append.mp hit
    exacts [(h.seen bump hbump).2 it hit,hlater it hit]

lemma step_of_adding {a : Act} {bump : Bump} (hb : s.adding a = some bump) :
    (step a s).1 = some (.ok ()) ∧ bump ∈ s.bumping := by
  cases a with
  | bumpAdd b =>
    rw [State.adding] at hb
    rw [step,hb]
    exact ⟨rfl,List.mem_of_getElem? hb⟩
  | _ => cases hb

theorem right_iff (h : Inv s) (a : Act) : Right a s ↔ Timely a s := by
  rw [Right,Timely]
  refine and_congr (forall₂_congr fun x hx => by rw [accepted_iff h hx]) ?_
  cases hb : s.adding a with
  | none => simp
  | some bump =>
    obtain ⟨hstep,hmem⟩ := step_of_adding hb
    simpa [hstep] using closed_iff h hmem

end Step

end Plomvix.Planner.RowIdentity
