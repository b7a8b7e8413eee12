import Plomvix.Logs.Store

/-! Appends to a file of logs, over any number of stores opened on it, and what a scan returns after
them. -/
namespace Plomvix.Logs
open Lib Pager PageLog Prog Engine

/-- What is done to a file of logs, of which there is one open store at a time. -/
inductive Call
  | append (r : LogRecord)
  | reopen (index : Enterprise)

def perform (lib : TextLib) : Call → Store Enterprise → Except Fail Unit × Store Enterprise
  | .append r,s => append (kind lib) r s
  | .reopen index,s => reopen (kind lib) index s

/-- The records of the appends that have returned nil. -/
def accepted : List Call → List (Except Fail Unit) → List LogRecord
  | .append r::calls,.ok ()::results => r::accepted calls results
  | _::calls,_::results => accepted calls results
  | _,_ => []

/-- The store has these records on its pages, and none besides in memory. -/
def Keeping (lib : TextLib) (m : List LogRecord) (s : Store Enterprise) : Prop :=
  ∃ before l, Loaded (kind lib) (fun _ _ => True) s before l [] ∧ (before++[l]).flatten = m

section Appends
variable {lib : TextLib} {m : List LogRecord} {s : Store Enterprise}

lemma keeps_true : Keeps (kind lib) fun _ _ => True :=
  ⟨fun _ _ _ _ => trivial,fun _ _ _ _ _ _ _ => trivial⟩

lemma accepted_cons (call : Call) (result : Except Fail Unit) (calls : List Call)
    (results : List (Except Fail Unit)) :
    accepted (call::calls) (result::results) = accepted [call] [result]++accepted calls results := by
  rcases call with r | index <;> rcases result with e | _ <;> rfl

lemma Keeping.appended (h : Keeping lib m s) (r : LogRecord) :
    Ends (append (kind lib) r) s (fun _ s' => Keeping lib (m++[r]) s') fun _ s' => Keeping lib m s' ∧
      (r.serializedSize ≤ 4076 → maxPages ≤ s.pages.pageCount) := by
  obtain ⟨before,l,hloaded,rfl⟩ := h
  refine (append_loaded keeps_true hloaded r).mono ?_ ?_
  · rintro _ s' ⟨before',l',h',hflat⟩
    exact ⟨before',l',h',by simpa using hflat⟩
  · rintro _ s' (⟨⟨_,_,hinsert⟩,-⟩ | ⟨h',hlarge⟩ | ⟨h',hfull⟩)
    · cases hinsert
    · exact ⟨⟨before,l,h',rfl⟩,fun hsize => absurd hlarge hsize.not_gt⟩
    · rw [List.append_nil] at h'
      exact ⟨⟨before,l,h',rfl⟩,fun _ => hfull⟩

lemma Keeping.reopened (h : Keeping lib m s) (index : Enterprise) :
    ∃ s', reopen (kind lib) index s = (.ok (),s') ∧ Keeping lib m s' := by
  obtain ⟨before,l,hloaded,rfl⟩ := h
  obtain ⟨s',hrun,hs'⟩ := @reopen_loaded _ _ _ _ _ _ _ _ keeps_true hloaded index fun _ => trivial
  rw [List.append_nil] at hs'
  exact ⟨s',hrun,before,l,hs',rfl⟩

lemma Keeping.performed (h : Keeping lib m s) (call : Call) :
    Keeping lib (m++accepted [call] [(perform lib call s).1]) (perform lib call s).2 := by
  cases call with
  | append r =>
    rw [perform]
    rcases hrun : append (kind lib) r s with ⟨e | _,s'⟩
    · simpa [accepted] using ((h.appended r).error hrun).1
    · exact (h.appended r).ok hrun
  | reopen index =>
    obtain ⟨s',hrun,hs'⟩ := h.reopened index
    rw [perform,hrun]
    simpa [accepted] using hs'

lemma Keeping.run (h : Keeping lib m s) (calls : List Call) :
    Keeping lib (m++accepted calls (Machine.run (perform lib) calls s).1)
      (Machine.run (perform lib) calls s).2 := by
  induction calls generalizing m s with
  | nil => simpa [accepted,Machine.run] using h
  | cons call calls ih =>
    rw [Machine.run,accepted_cons,← List.append_assoc]
    exact ih (h.performed call)

lemma Keeping.scanned (h : Keeping lib m s) : scanRange lib 0 0 [] s = (.ok m,s) := by
  obtain ⟨before,l,h,rfl⟩ := h
  have hhas : Has (kind lib) s (before++[l]).flatten := ⟨_,h.holds,rfl,fun _ => ⟨before,l,rfl,h.id⟩⟩
  have hall : (fun r : LogRecord => some (inRange 0 0 r &&
    (decide (([] : Bytes) = []) || contains r.body []))) = fun _ => some true := by
    simp [inRange]
  rw [scanRange,hall,hhas.scan_run _ h.quiet h.opened,PageLog.scanned,select_true]

/-- A new file can be opened; after any appends and reopenings a scan returns the records of the
appends that have returned nil, in their order, and another append returns nil unless its record is
too large, in which case nothing changes, or there is no page left. -/
theorem append_scan_round_trip (lib : TextLib) (index : Enterprise) (calls : List Call) :
    ∃ s₀, openStore (kind lib) (newStoreWithIndex .empty [] index) = (.ok (),s₀) ∧
      ∃ results s, Machine.run (perform lib) calls s₀ = (results,s) ∧
        scanRange lib 0 0 [] s = (.ok (accepted calls results),s) ∧
        (∀ index', (reopen (kind lib) index' s).1 = .ok ()) ∧
        ∀ r : LogRecord, if 4076 < r.serializedSize then
          append (kind lib) r s = (.error (.err .recordTooLarge),s)
          else s.pages.pageCount < maxPages → (append (kind lib) r s).1 = .ok () := by
  obtain ⟨s₀,hopen,hs₀⟩ := @opened_loaded _ _ (kind lib) (fun _ _ => True) index fun _ => trivial
  have hend := Keeping.run ⟨[],[],hs₀,rfl⟩ calls
  rw [List.nil_append] at hend
  refine ⟨s₀,hopen,_,_,rfl,hend.scanned,fun index' => ?_,fun r => ?_⟩
  · obtain ⟨s',hrun,-⟩ := hend.reopened index'
    rw [hrun]
  split_ifs with hlarge
  · obtain ⟨before,l,hs,-⟩ := hend
    rw [append,bind_ok (get_run _),if_neg (not_not.mpr hs.opened)]
    exact congrFun (if_pos hlarge) _
  · intro hroom
    rcases hrun : append (kind lib) r (Machine.run (perform lib) calls s₀).2 with ⟨e | _,s'⟩
    · exact absurd (((hend.appended r).error hrun).2 (not_lt.mp hlarge)) hroom.not_ge
    · rfl

/-- A store opened on the file of any others is read in any range and with any text: whatever pager
calls have failed and wherever the process has ended, it returns in order the records that the
results of the actions speak of, if no append and no close finds a page in memory that is not on
disk or a page without a header. -/
theorem logs_durable (lib : TextLib) (index : Enterprise) (acts : List (Action LogRecord))
    (h : Machine.Allowed (step (kind lib) index) InStep acts (newStoreWithIndex .empty [] index)) :
    let (results,s) := Machine.run (step (kind lib) index) acts (newStoreWithIndex .empty [] index)
    ∃ records, Machine.Trace Admits [] acts results records ∧ ∀ start stop bodyFilter,
      ((do openStore (kind lib); scanRange lib start stop bodyFilter)
        (newStoreWithIndex s.pages [] index)).1 =
        .ok (records.filter fun r =>
          inRange start stop r && (bodyFilter = [] || contains r.body bodyFilter)) := by
  obtain ⟨records,htrace,hhas⟩ := run_admits acts h
  refine ⟨records,htrace,fun start stop bodyFilter => ?_⟩
  rw [scanRange,hhas.reopened,if_pos (by simp)]
  simp

/-- The second append fails, and the process ends during the third, after its record is written. -/
def interrupted : List (Action LogRecord) :=
  [.reopen [],.append ⟨1,0,[],ascii "up"⟩ [],.append ⟨2,0,[],ascii "lost"⟩ [.fail],.reopen [],
    .append ⟨3,0,[],ascii "down"⟩ [.ok,.crash],.reopen []]

def noTokens : TextLib := ⟨id,fun _ => [],fun _ => false,fun _ => false,id,fun _ => [],id⟩

theorem logs_durable_interrupted :
    let (results,s) :=
  Machine.run (step (kind noTokens) ⟨none,[]⟩) interrupted (newStoreWithIndex .empty [] ⟨none,[]⟩)
    ∃ records, Machine.Trace Admits [] interrupted results records ∧ ∀ start stop bodyFilter,
      ((do openStore (kind noTokens); scanRange noTokens start stop bodyFilter)
        (newStoreWithIndex s.pages [] ⟨none,[]⟩)).1 =
        .ok (records.filter fun r =>
          inRange start stop r && (bodyFilter = [] || contains r.body bodyFilter)) :=
  logs_durable noTokens ⟨none,[]⟩ interrupted (by unfold interrupted; decide +kernel)

end Appends

end Plomvix.Logs
