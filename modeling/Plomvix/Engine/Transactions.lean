import Plomvix.Lib.Machine
import Plomvix.Engine.Sql
import Plomvix.SQL.OnStore
import Plomvix.SQL.Visible

/-! The transaction numbers under concurrent calls: every thread goes through the atomic operations of
its call one at a time, in any order among the threads. Between them the statements that have drawn a
write number make their calls to a table under it. -/
namespace Plomvix.Engine
open Lib

namespace Tx

/-- The next operation of a thread, with what the call has in its variables. -/
inductive Call
  | idle
  | readAdd
  | readLoad (r : UInt64)
  | readStore (w : UInt64)
  | writeAdd
  deriving DecidableEq

/-- The transaction manager and the call each thread is in. -/
structure Threads (T : Type) where
  manager : TxManager
  call : T → Call

/-- A thread begins a call or does its next atomic operation. -/
inductive Action (T : Type)
  | beginRead (t : T)
  | beginWrite (t : T)
  | op (t : T)

/-- What a call returns. -/
inductive Event (T : Type)
  | read (t : T) (r : UInt64)
  | wrote (t : T) (w : UInt64)
  deriving DecidableEq

section Machine
variable {T : Type} [DecidableEq T]

def Threads.begin (s : Threads T) (t : T) (c : Call) : Threads T :=
  if s.call t = .idle then { s with call := Function.update s.call t c } else s

/-- One atomic operation. -/
def Threads.op (s : Threads T) (t : T) : Option (Event T) × Threads T :=
  match s.call t with
  | .idle => (none,s)
  | .readAdd =>
    let r := s.manager.nextRead+1
    (none,⟨{ s.manager with nextRead := r },Function.update s.call t (.readLoad r)⟩)
  | .readLoad r =>
    let w := s.manager.nextWrite
    if w ≤ r then (some (.read t r),{ s with call := Function.update s.call t .idle })
    else (none,{ s with call := Function.update s.call t (.readStore w) })
  | .readStore w => (none,⟨{ s.manager with nextRead := w },Function.update s.call t .readAdd⟩)
  | .writeAdd =>
    let w := s.manager.nextWrite+1
    (some (.wrote t w),⟨{ s.manager with nextWrite := w },Function.update s.call t .idle⟩)

/-- One atomic step of a thread. -/
def step : Action T → Threads T → Option (Event T) × Threads T
  | .beginRead t,s => (none,s.begin t .readAdd)
  | .beginWrite t,s => (none,s.begin t .writeAdd)
  | .op t,s => s.op t

/-- No call is running. -/
def Threads.start (m : TxManager) : Threads T := ⟨m,fun _ => .idle⟩

/-- The write counter does not come round. -/
def Fresh (a : Action T) (s : Threads T) : Prop :=
  ∀ t, a = .op t → s.call t = .writeAdd → s.manager.nextWrite.toNat+1 < 2^64

/-- Nor does the read counter, and no call stores a number below it. -/
@[mk_iff]
structure Orderly (a : Action T) (s : Threads T) : Prop where
  fresh : Fresh a s
  add : ∀ t, a = .op t → s.call t = .readAdd → s.manager.nextRead.toNat+1 < 2^64
  store : ∀ t, a = .op t → ∀ w, s.call t = .readStore w → s.manager.nextRead ≤ w

section Steps
variable {s : Threads T} {a : Action T} {t t' : T} {r w b : UInt64}

@[simp] lemma begin_manager (s : Threads T) (t : T) (c : Call) : (s.begin t c).manager = s.manager := by
  unfold Threads.begin
  split <;> rfl

lemma begin_call {c : Call} (h : (s.begin t c).call t' = .readLoad r) (hc : c≠.readLoad r) :
    s.call t' = .readLoad r := by
  unfold Threads.begin at h
  split at h
  · simp only [Function.update_apply] at h
    split at h
    · exact absurd h hc
    · exact h
  · exact h

lemma step_nextWrite (h : Fresh a s) : s.manager.nextWrite ≤ (step a s).2.manager.nextWrite := by
  cases a with
  | beginRead t => simp [step]
  | beginWrite t => simp [step]
  | op t =>
    simp only [step,Threads.op]
    cases hc : s.call t with
    | idle => simp
    | readAdd => simp
    | readLoad r =>
      simp only
      split <;> simp
    | readStore w => simp
    | writeAdd => exact (lt_succ (h t rfl hc)).le

lemma step_nextRead (h : Orderly a s) : s.manager.nextRead ≤ (step a s).2.manager.nextRead := by
  cases a with
  | beginRead t => simp [step]
  | beginWrite t => simp [step]
  | op t =>
    simp only [step,Threads.op]
    cases hc : s.call t with
    | idle => simp
    | readAdd => exact (lt_succ (h.add t rfl hc)).le
    | readLoad r =>
      simp only
      split <;> simp
    | readStore w => exact h.store t rfl w hc
    | writeAdd => simp

/-- A number that a call has drawn was drawn before, or is drawn by this step from the read counter. -/
lemma step_readLoad (h : (step a s).2.call t = .readLoad r) :
    s.call t = .readLoad r ∨ a = .op t ∧ s.call t = .readAdd ∧ r = s.manager.nextRead+1 ∧
      (step a s).2.manager.nextRead = r := by
  cases a with
  | beginRead t' => exact .inl (begin_call h (by simp))
  | beginWrite t' => exact .inl (begin_call h (by simp))
  | op t' =>
    by_cases ht : t = t'
    · subst ht
      simp only [step,Threads.op] at h ⊢
      cases hc : s.call t with
      | readAdd =>
        simp only [hc,Function.update_self,Call.readLoad.injEq] at h
        simp [← h]
      | readLoad r' =>
        simp only [hc] at h
        split at h <;> simp at h
      | _ => simp [hc] at h
    · left
      simp only [step,Threads.op] at h
      cases hc : s.call t' with
      | idle => simpa [hc] using h
      | readLoad r' =>
        simp only [hc] at h
        split at h <;> simpa [Function.update_of_ne ht] using h
      | _ => simpa [hc,Function.update_of_ne ht] using h

lemma step_read (h : (step a s).1 = some (.read t r)) :
    a = .op t ∧ s.call t = .readLoad r ∧ s.manager.nextWrite ≤ r ∧
    (step a s).2 = { s with call := Function.update s.call t .idle } := by
  cases a with
  | beginRead t' => cases h
  | beginWrite t' => cases h
  | op t' =>
    simp only [step,Threads.op] at h ⊢
    cases hc : s.call t' with
    | readLoad r' =>
      simp only [hc] at h
      split at h
      · rename_i hle
        obtain ⟨rfl,rfl⟩ : t' = t ∧ r' = r := by simpa using h
        simp [hc,hle]
      · cases h
    | _ => simp [hc] at h

lemma step_wrote (h : (step a s).1 = some (.wrote t w)) : a = .op t ∧ s.call t = .writeAdd ∧
    w = s.manager.nextWrite+1 ∧ (step a s).2.manager.nextWrite = w := by
  cases a with
  | beginRead t' => cases h
  | beginWrite t' => cases h
  | op t' =>
    simp only [step,Threads.op] at h ⊢
    cases hc : s.call t' with
    | writeAdd =>
      obtain ⟨rfl,rfl⟩ : t' = t ∧ s.manager.nextWrite+1 = w := by simpa [hc] using h
      simp [hc]
    | readLoad r' =>
      simp only [hc] at h
      split at h <;> simp at h
    | _ => simp [hc] at h

end Steps

/-- The numbers of the write calls that begin from here on, as long as the counter does not come round. -/
def Later (s : Threads T) (w : UInt64) : Prop :=
  ∃ before t after, Machine.Allowed step Fresh (before++.beginWrite t::after) s ∧
    (Machine.run step before s).2.call t = .idle ∧
      some (.wrote t w) ∈ (Machine.run step after (step (.beginWrite t) (Machine.run step before s).2).2).1

/-- Nothing that a later call writes is there for a reader at `r`. -/
def Stable (s : Threads T) (r : UInt64) : Prop := ∀ w, Later s w → r < w

section Snapshots
variable {s : Threads T} {t : T} {r : UInt64}

lemma wrote_above {acts : List (Action T)} (h : r ≤ s.manager.nextWrite)
    (ha : Machine.Allowed step Fresh acts s) :
    r ≤ (Machine.run step acts s).2.manager.nextWrite ∧
      ∀ x ∈ (Machine.run step acts s).1, ∀ t w, x = some (.wrote t w) → r < w := by
  refine Machine.run_invariant (I := fun s => r ≤ s.manager.nextWrite)
    (Q := fun x => ∀ t w, x = some (.wrote t w) →
      r < w) (fun a s hs hf => ⟨hs.trans (step_nextWrite hf),?_⟩) h ha
  intro t w hx
  obtain ⟨rfl,hc,rfl,-⟩ := step_wrote hx
  exact hs.trans_lt (lt_succ (hf t rfl hc))

/-- With a thread that can begin a call, a number is stable exactly when the write counter has
reached it. -/
lemma stable_iff (hidle : s.call t = .idle) : Stable s r ↔ r ≤ s.manager.nextWrite := by
  constructor
  · intro h
    by_contra hlt
    have hlt := not_le.mp hlt
    have hfresh : s.manager.nextWrite.toNat+1 < 2^64 := by
      have h1 := UInt64.lt_iff_toNat_lt.mp hlt
      have h2 := r.toNat_lt
      omega
    refine hlt.not_ge (le_of_lt_succ (h (s.manager.nextWrite+1) ⟨[],t,[.op t],?_,hidle,?_⟩) hfresh)
    · refine ⟨by simp [Fresh],fun t' _ _ => ?_,trivial⟩
      rw [step,begin_manager]
      exact hfresh
    · simp [Machine.run,step,Threads.begin,hidle,Threads.op]
  · rintro h w ⟨before,t',after,hall,-,hw⟩
    obtain ⟨hbefore,hbegin,hafter⟩ := Machine.allowed_append.mp hall
    have h1 := (wrote_above h hbefore).1
    exact (wrote_above (h1.trans (step_nextWrite hbegin)) hafter).2 _ hw t' w rfl

lemma alone_iff {m m' : TxManager} (h : m.nextReadTx = some (r,m')) :
    r ≤ m'.nextWrite ↔ m.nextRead+1 = m.nextWrite := by
  unfold TxManager.nextReadTx at h
  split_ifs at h with h1 h2
  · obtain ⟨rfl,rfl⟩ := Prod.mk.inj (Option.some.inj h)
    exact ⟨fun hle => le_antisymm hle h1,fun he => he.le⟩
  · obtain ⟨rfl,rfl⟩ := Prod.mk.inj (Option.some.inj h)
    have hne : m.nextWrite≠m.nextWrite+1 := by simp
    refine ⟨fun hle => absurd (le_antisymm h2 hle) hne,fun he => absurd he.ge h1⟩

lemma nextReadTx_write {m m' : TxManager} (h : m.nextReadTx = some (r,m')) :
    m'.nextWrite = m.nextWrite ∧ m'.nextWrite ≤ r := by
  unfold TxManager.nextReadTx at h
  split_ifs at h with h1 h2
  · obtain ⟨rfl,rfl⟩ := Prod.mk.inj (Option.some.inj h)
    exact ⟨rfl,h1⟩
  · obtain ⟨rfl,rfl⟩ := Prod.mk.inj (Option.some.inj h)
    exact ⟨rfl,h2⟩

lemma read_alone {m : TxManager} (hidle : s.call t = .idle) (h : s.manager.nextReadTx = some (r,m)) :
    ∃ n, Machine.run step (.beginRead t::List.replicate n (.op t)) s =
      (List.replicate n none++[some (.read t r)],{ s with manager := m }) := by
  have hback : ∀ c d, Function.update (Function.update s.call t c) t d =
    Function.update s.call t d := by simp
  have hend : Function.update s.call t .idle = s.call := by rw [← hidle,Function.update_eq_self]
  unfold TxManager.nextReadTx at h
  split_ifs at h with h1 h2
  · obtain ⟨rfl,rfl⟩ := Prod.mk.inj (Option.some.inj h)
    refine ⟨2,?_⟩
    simp [Machine.run,step,Threads.begin,hidle,Threads.op,List.replicate,h1,hend]
  · obtain ⟨rfl,rfl⟩ := Prod.mk.inj (Option.some.inj h)
    refine ⟨5,?_⟩
    simp [Machine.run,step,Threads.begin,hidle,Threads.op,List.replicate,h1,h2,hend]

end Snapshots

section Order
variable {s : Threads T} {t : T} {r b c : UInt64} {acts : List (Action T)}

def Drawn (s : Threads T) : Prop := ∀ t r, s.call t = .readLoad r → r ≤ s.manager.nextRead

lemma drawn_step {a : Action T} (h : Drawn s) (ha : Orderly a s) : Drawn (step a s).2 := by
  intro t r hc
  obtain hc | ⟨-,-,-,he⟩ := step_readLoad hc
  · exact (h t r hc).trans (step_nextRead ha)
  · exact he.ge

lemma returned_le (h : Drawn s) (ha : Machine.Allowed step Orderly acts s) :
    (s.manager.nextRead ≤ (Machine.run step acts s).2.manager.nextRead ∧
      s.manager.nextWrite ≤ (Machine.run step acts s).2.manager.nextWrite) ∧
      ∀ x ∈ (Machine.run step acts s).1, (∀ t r, x = some (.read t r) →
        r ≤ (Machine.run step acts s).2.manager.nextRead) ∧
        ∀ t w, x = some (.wrote t w) → w ≤ (Machine.run step acts s).2.manager.nextWrite := by
  induction acts generalizing s with
  | nil => simp [Machine.run]
  | cons a acts ih =>
    obtain ⟨ha,hrest⟩ := ha
    obtain ⟨⟨hread,hwrite⟩,hevents⟩ := ih (drawn_step h ha) hrest
    refine ⟨⟨(step_nextRead ha).trans hread,(step_nextWrite ha.fresh).trans hwrite⟩,fun x hx => ?_⟩
    obtain rfl | hx := List.mem_cons.mp hx
    · constructor
      · intro t r hx
        obtain ⟨-,hc,-⟩ := step_read hx
        exact (h t r hc).trans ((step_nextRead ha).trans hread)
      · intro t w hx
        obtain ⟨-,-,-,he⟩ := step_wrote hx
        exact he.ge.trans hwrite
    · exact hevents x hx

/-- A call that begins when the counters are at `b` and `c` returns a number above `b` and not below
`c`. -/
lemma returned_above (ha : Machine.Allowed step Orderly acts s) (hb : b ≤ s.manager.nextRead)
    (hc : c ≤ s.manager.nextWrite)
    (ht : ∀ r, s.call t = .readLoad r → b < r) :
    ∀ x ∈ (Machine.run step acts s).1, ∀ r, x = some (.read t r) → b < r ∧ c ≤ r := by
  refine (Machine.run_invariant
    (I := fun s => b ≤ s.manager.nextRead ∧ c ≤ s.manager.nextWrite ∧ ∀ r, s.call t = .readLoad r → b < r)
    (Q := fun x => ∀ r, x = some (.read t r) → b < r ∧ c ≤ r) ?_ ⟨hb,hc,ht⟩ ha).2
  rintro a s ⟨hb,hc,ht⟩ ha
  refine ⟨⟨hb.trans (step_nextRead ha),hc.trans (step_nextWrite ha.fresh),fun r hr => ?_⟩,fun r hx => ?_⟩
  · obtain hr | ⟨rfl,hadd,rfl,-⟩ := step_readLoad hr
    · exact ht r hr
    · exact hb.trans_lt (lt_succ (ha.add t rfl hadd))
  · obtain ⟨-,hr,hle,-⟩ := step_read hx
    exact ⟨ht r hr,hc.trans hle⟩

end Order

/-- The threads, and the number under which a thread executes a statement that writes. -/
structure Statements (T : Type) where
  threads : Threads T
  writing : T → Option UInt64

/-- A statement may make any number of calls to the table before it ends. -/
inductive Move (T : Type)
  | tx (a : Action T)
  | table (t : T) (c : SQL.TableCall)
  | finish (t : T)

def Statements.start (m : TxManager) : Statements T := ⟨.start m,fun _ => none⟩

/-- An action, after which a writer holds its number. -/
def Statements.tx (s : Statements T) (a : Action T) : Statements T where
  threads := (step a s.threads).2
  writing := match (step a s.threads).1 with
    | some (.wrote t w) => Function.update s.writing t (some w)
    | _ => s.writing

/-- One move of a thread, on the manager or on the table. -/
def move (schema : SQL.Schema) : Move T → Statements T × KV.Store →
      Option (Event T) × Statements T × KV.Store
  | .tx a,(s,store) => ((step a s.threads).1,s.tx a,store)
  | .table _ c,(s,store) => (none,s,(c.stepOn schema store).2)
  | .finish t,(s,store) => (none,{ s with writing := Function.update s.writing t none },store)

/-- The calls of a statement have its number and write short rows. -/
def Move.Proper (schema : SQL.Schema) : Move T → Statements T × KV.Store → Prop
  | .tx a,x => Fresh a x.1.threads
  | .table t c,x => x.1.writing t = some c.tx ∧ c.Admitted schema x.2
  | .finish _,_ => True

/-- Whatever happens from here on, in every table a reader at `r` sees the rows that are there now. -/
def Unchanged (s : Statements T) (r : UInt64) : Prop :=
  ∀ (table : SQL.Table) (store : KV.Store) (st : SQL.Entries) (moves : List (Move T)), SQL.Backs store st →
    Machine.Allowed (move table.toSchema) (Move.Proper table.toSchema) moves (s,store) →
    SQL.visibleRows table.toSchema
      (SQL.listing (Machine.run (move table.toSchema) moves (s,store)).2.2) r =
      SQL.visibleRows table.toSchema (SQL.listing store) r

section Visible
variable {s : Statements T} {t : T} {r w : UInt64} {schema : SQL.Schema}

/-- The numbers of unfinished statements have been drawn from the write counter. -/
def Statements.Numbered (s : Statements T) : Prop :=
  ∀ t w, s.writing t = some w → 0 < w ∧ w ≤ s.threads.manager.nextWrite

lemma tx_writing {a : Action T} (h : (s.tx a).writing t = some w) :
    s.writing t = some w ∨ (step a s.threads).1 = some (.wrote t w) := by
  cases hevent : (step a s.threads).1 with
  | none => exact .inl (by simpa only [Statements.tx,hevent] using h)
  | some e =>
    cases e with
    | read t' r => exact .inl (by simpa only [Statements.tx,hevent] using h)
    | wrote t' w' =>
      simp only [Statements.tx,hevent,Function.update_apply] at h
      split at h
      · rename_i heq
        rw [heq,Option.some.inj h]
        exact .inr rfl
      · exact .inl h

lemma finish_writing {t' : T} (h : Function.update s.writing t none t' = some w) :
    s.writing t' = some w := by
  rw [Function.update_apply] at h
  split at h
  · cases h
  · exact h

lemma numbered_move {a : Move T} {x : Statements T × KV.Store} (h : x.1.Numbered)
    (ha : a.Proper schema x) :
    (move schema a x).2.1.Numbered := by
  cases a with
  | tx a =>
    intro t w hw
    obtain hw | hevent := tx_writing hw
    · exact ⟨(h t w hw).1,(h t w hw).2.trans (step_nextWrite ha)⟩
    · obtain ⟨rfl,hc,rfl,he⟩ := step_wrote hevent
      exact ⟨UInt64.zero_le.trans_lt (lt_succ (ha t rfl hc)),he.ge⟩
  | table t c => exact h
  | finish t => exact fun t' w hw => h t' w (finish_writing hw)

/-- What the reader sees is not touched as long as every number that is in use or still to come is
above `r`. -/
structure Safe (schema : SQL.Schema) (r : UInt64) (rows : Set (List SQL.KeyValue × List SQL.Val))
    (x : Statements T × KV.Store) : Prop where
  drawn : r ≤ x.1.threads.manager.nextWrite
  writing : ∀ t w, x.1.writing t = some w → r < w
  backs : SQL.Backs x.2 (SQL.listing x.2)
  rows : SQL.visibleRows schema (SQL.listing x.2) r = rows

lemma safe_move {table : SQL.Table} {rows : Set (List SQL.KeyValue × List SQL.Val)} {a : Move T}
    {x : Statements T × KV.Store} (h : Safe table.toSchema r rows x) (ha : a.Proper table.toSchema x) :
    Safe table.toSchema r rows (move table.toSchema a x).2 := by
  cases a with
  | tx a =>
    refine ⟨h.drawn.trans (step_nextWrite ha),fun t w hw => ?_,h.backs,h.rows⟩
    obtain hw | hevent := tx_writing hw
    · exact h.writing t w hw
    · obtain ⟨rfl,hc,rfl,-⟩ := step_wrote hevent
      exact h.drawn.trans_lt (lt_succ (ha t rfl hc))
  | table t c =>
    have hstep := (h.backs.step c ha.2).2
    have hlater : SQL.visibleRows table.toSchema
        (Machine.run (SQL.TableCall.step table.toSchema SQL.btreeLimits) [c] (SQL.listing x.2)).2 r = _ :=
      SQL.visibleRows_later h.backs.1 (List.forall_mem_singleton.mpr (h.writing t c.tx ha.1))
    refine ⟨h.drawn,h.writing,?_,?_⟩
    · rw [move,hstep.listing_eq]
      exact hstep
    · rw [move,hstep.listing_eq,← h.rows]
      exact hlater
  | finish t => exact ⟨h.drawn,fun t' w hw => h.writing t' w (finish_writing hw),h.backs,h.rows⟩

lemma unchanged_of_safe (hdrawn : r ≤ s.threads.manager.nextWrite)
    (hwriting : ∀ t w, s.writing t = some w → r < w) :
    Unchanged s r := by
  intro table store st moves hbacks hall
  have hstart : Safe table.toSchema r (SQL.visibleRows table.toSchema (SQL.listing store) r) (s,store) :=
    ⟨hdrawn,hwriting,hbacks.listing_eq ▸ hbacks,rfl⟩
  exact (Machine.run_invariant (Q := fun _ => True) (fun a x hx ha =>
    ⟨safe_move hx ha,trivial⟩) hstart hall).1.rows

/-- The first row of a table is seen by everybody who reads at its number or later. -/
lemma first_row (hw : 0 < w) (hle : w ≤ r) :
    (SQL.TableCall.insert w [.uint64 7,.null]).Admitted SQL.users.toSchema KV.freshStore ∧
      SQL.visibleRows SQL.users.toSchema
        (SQL.listing ((SQL.TableCall.insert w [.uint64 7,.null]).stepOn SQL.users.toSchema
          KV.freshStore).2) r≠
        SQL.visibleRows SQL.users.toSchema (SQL.listing KV.freshStore) r := by
  have hkey : SQL.encodeRowKeyFromPK SQL.users.toSchema [.uint64 7] w =
    .ok (SQL.rowKey SQL.users.toSchema [.uint64 7] w) :=
    SQL.encodeRowKeyFromPK_eq (by decide) w
  have hrow : SQL.encodeEnterpriseValue SQL.users.toSchema (some [.uint64 7,.null]) SQL.flagNormal =
      .ok [0,2,0,0,0,8,0,0,0,0,0,0,0,7] := by decide +kernel
  have hlength : (SQL.rowKey SQL.users.toSchema [.uint64 7] w).length = 25 := by
    rw [SQL.rowKey,List.length_append]
    rfl
  have hread : SQL.Readable SQL.users.toSchema [.uint64 7] :=
    SQL.readable_of_delimited rfl (List.forall_mem_singleton.mpr trivial)
  have hmonotonic : SQL.validateMonotonicTx SQL.users.toSchema [] [.uint64 7] w = .ok () := by
    rw [SQL.validateMonotonicTx,if_neg hw.ne']
    rfl
  have hentry : SQL.insertEntry SQL.users.toSchema [] w [.uint64 7,.null] = .ok (_,_) :=
    SQL.insertEntry_ok_iff.mpr ⟨rfl,hmonotonic,rfl,hrow,hkey⟩
  have hadmitted : (SQL.TableCall.insert w [.uint64 7,.null]).Admitted SQL.users.toSchema
    KV.freshStore := by
    refine ⟨⟨?_,?_⟩,KV.roomy_fresh⟩
    · rw [SQL.TableCall.row,hrow]
      decide
    · change ((SQL.encodeRowKeyFromPK SQL.users.toSchema [.uint64 7] w).toOption.getD []).length ≤ _
      rw [hkey]
      exact hlength.le.trans (by decide)
  have hlisting : SQL.listing
    ((SQL.TableCall.insert w [.uint64 7,.null]).stepOn SQL.users.toSchema KV.freshStore).2 =
      Assoc.put (SQL.rowKey SQL.users.toSchema [.uint64 7] w) [0,2,0,0,0,8,0,0,0,0,0,0,0,7] [] := by
    have haccepts : SQL.btreeLimits.accepts (SQL.rowKey SQL.users.toSchema [.uint64 7] w)
        [0,2,0,0,0,8,0,0,0,0,0,0,0,7] = true := by
      simp only [SQL.btreeLimits,decide_eq_true_eq,hlength]
      decide
    rw [(SQL.backs_fresh.step _ hadmitted).2.listing_eq]
    simp only [SQL.TableCall.step,SQL.insert,SQL.setEntry,hentry,SQL.storeSet,haccepts,if_true]
  refine ⟨hadmitted,fun h => ?_⟩
  rw [hlisting,SQL.backs_fresh.listing_eq,SQL.visibleRows_eq_iff] at h
  have hseven := h [.uint64 7]
  rw [SQL.visibleAt,SQL.versionsOf_put_same SQL.backs_fresh.1 hread] at hseven
  simp [SQL.versionsOf,Assoc.put,latestOf,hle,SQL.visibleAt] at hseven
  exact absurd hseven (by decide)

/-- After a return the rows stay exactly when the write counter has reached the number and every statement
that has drawn one is finished. -/
lemma unchanged_iff (hs : s.Numbered) (hidle : s.threads.call t = .idle)
    (hread : s.threads.manager.nextWrite ≤ r) :
    Unchanged s r ↔ r = s.threads.manager.nextWrite ∧ ∀ t, s.writing t = none := by
  constructor
  · intro h
    have hdrawn : r ≤ s.threads.manager.nextWrite := by
      by_contra hlt
      have hlt := not_le.mp hlt
      have hfresh : s.threads.manager.nextWrite.toNat+1 < 2^64 := by
        have h1 := UInt64.lt_iff_toNat_lt.mp hlt
        have h2 := r.toNat_lt
        omega
      -- the thread that has just returned draws the next number for a statement of its own
      have hnext : s.threads.manager.nextWrite+1 ≤ r :=
        not_lt.mp fun hr => hlt.not_ge (le_of_lt_succ hr hfresh)
      obtain ⟨hadmitted,hrows⟩ := first_row (UInt64.zero_le.trans_lt (lt_succ hfresh)) hnext
      have hkept := h SQL.users KV.freshStore []
        [.tx (.beginWrite t),.tx (.op t),
          .table t (.insert (s.threads.manager.nextWrite+1) [.uint64 7,.null])]
        SQL.backs_fresh ⟨?_,?_,⟨?_,?_⟩,trivial⟩
      · simp only [Machine.run,move] at hkept
        exact hrows hkept
      · simp [Move.Proper,Fresh]
      · intro t' _ _
        simpa [move,Statements.tx,step] using hfresh
      · simp [move,Statements.tx,step,Threads.begin,hidle,Threads.op,SQL.TableCall.tx]
      · simpa only [move] using hadmitted
    refine ⟨le_antisymm hdrawn hread,fun t' => Option.eq_none_iff_forall_ne_some.mpr fun w hw => ?_⟩
    obtain ⟨hpos,hle⟩ := hs t' w hw
    obtain ⟨hadmitted,hrows⟩ := first_row hpos (hle.trans hread)
    have hkept := h SQL.users KV.freshStore [] [.table t' (.insert w [.uint64 7,.null])] SQL.backs_fresh
      ⟨⟨hw,?_⟩,trivial⟩
    · simp only [Machine.run,move] at hkept
      exact hrows hkept
    · simpa only using hadmitted
  · rintro ⟨hr,hfinished⟩
    exact unchanged_of_safe hr.le fun t w hw => by simp [hfinished] at hw

end Visible

section Snapshot
variable {m : TxManager} {table : SQL.Table} {store : KV.Store} {before : List (Move T)} {s : Statements T}

lemma numbered_run {schema : SQL.Schema}
    (h : Machine.Allowed (move schema) (Move.Proper schema) before (.start m,store)) :
    (Machine.run (move schema) before (.start m,store)).2.1.Numbered :=
  (Machine.run_invariant (I := fun x => x.1.Numbered) (Q := fun _ => True)
    (fun a x hx ha => ⟨numbered_move hx ha,trivial⟩) (fun _ _ h => by cases h) h).1

end Snapshot

/-- Every interleaving in which the counters do not come round and no call stores a number below the read
counter: what a NextReadTx returns is not below the write numbers that were allocated before it began, and
above the read numbers that were returned by then. -/
theorem read_numbers_increase {m : TxManager} {before after : List (Action T)} {t : T} {r : UInt64}
    (hall : Machine.Allowed step Orderly (before++.beginRead t::after) (Threads.start m))
    (hidle : (Machine.run step before (Threads.start m)).2.call t = .idle)
    (hret : some (.read t r) ∈ (Machine.run step after
      (step (.beginRead t) (Machine.run step before (Threads.start m)).2).2).1) :
    (∀ t' w, some (.wrote t' w) ∈ (Machine.run step before (Threads.start m)).1 → w ≤ r) ∧
      ∀ t' r', some (.read t' r') ∈ (Machine.run step before (Threads.start m)).1 → r' < r := by
  obtain ⟨hbefore,hbegin,hafter⟩ := Machine.allowed_append.mp hall
  have hdrawn : Drawn (Threads.start m : Threads T) := fun _ _ h => by cases h
  obtain ⟨-,hle⟩ := returned_le hdrawn hbefore
  have hcall : ∀ r, (step (.beginRead t) (Machine.run step before (Threads.start m)).2).2.call t =
    .readLoad r →
      (Machine.run step before (Threads.start m)).2.manager.nextRead < r := by
    intro r h
    have hload := begin_call h (by simp)
    rw [hidle] at hload
    cases hload
  have habove :=
    returned_above hafter (step_nextRead hbegin) (step_nextWrite hbegin.fresh) hcall _ hret r rfl
  exact ⟨fun t' w hw => ((hle _ hw).2 t' w rfl).trans habove.2,fun t' r' hr =>
    ((hle _ hr).1 t' r' rfl).trans_lt habove.1⟩

end Machine

/-- Two calls, one after the other. -/
theorem read_numbers_increase_twice :
    (Machine.run step [.beginRead (),.op (),.op (),.beginRead (),.op (),.op ()] (Threads.start ⟨1,1⟩)).1 =
      [none,none,some (.read () 2),none,none,some (.read () 3)] ∧ (2 : UInt64) < 3 :=
  have hall : Machine.Allowed step Orderly ([.beginRead (),.op (),.op ()]++.beginRead ()::[.op (),.op ()])
      (Threads.start ⟨1,1⟩) := by
    simp [Machine.Allowed,orderly_iff,Fresh,step,Threads.begin,Threads.start,Threads.op]
  ⟨by decide,(read_numbers_increase hall (by decide) (by decide)).2 () 2 (by decide)⟩

/-- A call has found its number too small and is about to store the write counter, 3, when another thread
gets 3 and then 4; after the store it gets 4 again. -/
theorem read_number_twice :
    (Machine.run step [.beginWrite true,.op true,.beginWrite true,.op true,.beginRead false,
      .op false,.op false,
      .beginRead true,.op true,.op true,.beginRead true,.op true,.op true,.op false,
      .beginRead true,.op true,.op true] (Threads.start ⟨1,1⟩)).1 =
      [none,some (.wrote true 2),none,some (.wrote true 3),none,none,none,none,none,some (.read true 3),
        none,none,some (.read true 4),none,none,none,some (.read true 4)] := by decide

end Tx
end Plomvix.Engine
