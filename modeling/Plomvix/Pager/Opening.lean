import Plomvix.Pager.Header
import Plomvix.Lib.Machine

/-! What a pager serves after an `Open` that has failed. -/
namespace Plomvix.Pager
open Lib

section Calls

def checkState : Cmd Unit := do
  let s ← Prog.get
  match s.state with
  | .opened => pure ()
  | .neverOpened => fail .notOpen
  | .closed => fail .closed

/-- A call looks at its context and at the state of the pager first. -/
def guarded {α : Type} (ctx : Option Err) (x : Cmd α) : Cmd α :=
  match ctx with
  | some e => fail e
  | none => do
    checkState
    x

def undoing {α : Type} (old : FilePager) (x : Cmd α) : Cmd α := x.handle fun e => do
  Prog.modify fun s => { old with files := s.files }
  Prog.stop e

/-- The pages 0 and 1 hold the headers. -/
def validatePageID (s : FilePager) (pageID : UInt64) : Cmd Unit :=
  if pageID = 0 ∨ pageID = 1 ∨ s.pageCount ≤ pageID ∨
    pageID.toNat ∈ s.freeSet then fail .invalidPageID else pure ()

def readPage (ctx : Option Err) (pageID : UInt64) : Cmd Bytes := guarded ctx do
  let s ← Prog.get
  validatePageID s pageID
  match if s.inTxn then s.txnBuffer.lookup pageID.toNat else none with
  | some buf => pure buf
  | none => readBodyUnchecked pageID.toNat

def appendWAL (pageID : UInt64) (body : Bytes) : Cmd Unit := do
  let s ← Prog.get
  let frame := encodeWALRecord s.currentTxn.toNat pageID.toNat body
  wrap "pager: append WAL" (writeWAL s.walSize frame)
  wrap "pager: fsync WAL" syncWAL
  Prog.modify fun s => { s with
    txnBuffer := (pageID.toNat,body)::s.txnBuffer, walSize := s.walSize+frame.length }

def writePage (ctx : Option Err) (pageID : UInt64) (body : Bytes) : Cmd Unit := guarded ctx do
  let s ← Prog.get
  validatePageID s pageID
  if body.length≠dataPageBodySize then fail .bodySizeMismatch
  else if s.inTxn then appendWAL pageID body
  else writeBodyUnchecked pageID.toNat body

/-- The header is written after the change in memory, which is taken back if that fails. -/
def allocatePage (ctx : Option Err) : Cmd UInt64 := guarded ctx do
  let s ← Prog.get
  if s.inTxn then fail .txUnsupportedOp
  else if s.freeListHead.toNat≠freeListSentinel then do
    let allocID := s.freeListHead
    let body ← readBodyUnchecked allocID.toNat
    let nextHead ← codec (decodeFreeListPointer body)
    writeBodyUnchecked allocID.toNat (List.replicate dataPageBodySize 0)
    undoing s do
      Prog.modify fun s => { s with
        freeSet := s.freeSet.filter (·≠allocID.toNat), freeListHead := .ofNat nextHead,
                                    freeCount := if s.freeCount > 0 then s.freeCount-1 else s.freeCount }
      writeHeader s.pageCount (.ofNat nextHead)
    pure allocID
  else do
    writeBodyUnchecked s.pageCount.toNat (List.replicate dataPageBodySize 0)
    undoing s do
      Prog.modify fun s => { s with pageCount := s.pageCount+1 }
      writeHeader (s.pageCount+1) s.freeListHead
    pure s.pageCount

/-- The mirror header is not kept from being freed. -/
def freePage (ctx : Option Err) (pageID : UInt64) : Cmd Unit := guarded ctx do
  let s ← Prog.get
  if s.inTxn then fail .txUnsupportedOp
  else if pageID = 0 ∨ s.pageCount ≤ pageID then fail .invalidPageID
  else if pageID.toNat ∈ s.freeSet then fail .alreadyFree
  else do
    writeBodyUnchecked pageID.toNat (encodeFreeListPointer s.freeListHead.toNat)
    undoing s do
      Prog.modify fun s => { s with
        freeSet := pageID.toNat::s.freeSet, freeListHead := pageID, freeCount := s.freeCount+1 }
      writeHeader s.pageCount pageID

def beginTx (ctx : Option Err) : Cmd Unit := guarded ctx do
  let s ← Prog.get
  if s.inTxn then fail .txAlreadyActive
  else Prog.modify fun s => { s with
    inTxn := true, nextTxnID := s.nextTxnID+1, currentTxn := s.nextTxnID+1, txnBuffer := [] }

def pageCount : Cmd UInt64 := guarded none do
  let s ← Prog.get
  pure s.pageCount

/-- A call of the pager. -/
inductive Call
  | readPage (ctx : Option Err) (pageID : UInt64)
  | writePage (ctx : Option Err) (pageID : UInt64) (body : Bytes)
  | allocatePage (ctx : Option Err)
  | freePage (ctx : Option Err) (pageID : UInt64)
  | beginTx (ctx : Option Err)
  | pageCount

inductive Answer
  | done
  | body (b : Bytes)
  | number (n : UInt64)

def Call.run : Call → Cmd Answer
  | readPage ctx pageID => Answer.body <$> Pager.readPage ctx pageID
  | writePage ctx pageID body => (fun _ => .done) <$> Pager.writePage ctx pageID body
  | allocatePage ctx => Answer.number <$> Pager.allocatePage ctx
  | freePage ctx pageID => (fun _ => .done) <$> Pager.freePage ctx pageID
  | beginTx ctx => (fun _ => .done) <$> Pager.beginTx ctx
  | pageCount => Answer.number <$> Pager.pageCount

end Calls

section Contents

/-- What becomes of the file operation after the next `n`. -/
def Files.outcome (f : Files) (n : ℕ) : Outcome := f.script.getD n .ok

/-- The page lies within the file and has this content. -/
def Files.Holds (f : Files) (pageID : ℕ) (b : Bytes) : Prop :=
  ∃ k, place pageID = some k ∧ (k+1)*pageSize ≤ f.size ∧ f.view k = b

/-- The file after the mirror header `b` was to be written over the primary one. -/
def Files.repaired (f : Files) (b : Bytes) : Outcome → Files
  | .ok => f.write headerPageID b
  | .fail (some left) => f.write headerPageID left
  | _ => f

/-- A page with a valid header, the file when it has been found, and the number of file operations
up to then. The mirror counts if page 0 cannot be read or has no valid header, and whether it can be
written back does not matter. -/
inductive HeaderFound (f : Files) : PagerHeader → Files → ℕ → Prop
  | primary {h : PagerHeader} {b : Bytes} (hread : f.outcome 1 = .ok) (hb : f.Holds headerPageID b)
      (hh : decodeHeader b = .ok h) : HeaderFound f h f 2
  | mirror {h : PagerHeader} {b : Bytes} (hbad : f.outcome 1 = .ok → ∀ b h, f.Holds headerPageID b →
      decodeHeader b≠.ok h)
      (hread : f.outcome 2 = .ok) (hb : f.Holds mirrorHeaderPageID b) (hh : decodeHeader b = .ok h)
      (hruns : f.outcome 1≠.crash ∧ f.outcome 3≠.crash ∧ (f.outcome 3 = .ok → f.outcome 4≠.crash)) :
      HeaderFound f h (f.repaired b (f.outcome 3)) (if f.outcome 3 = .ok then 5 else 4)

/-- The pages of a free list: all in the range of the header, none twice, and each with a pointer to
the next one. -/
inductive FreeChain (holds : ℕ → Bytes → Prop) (pageCount : ℕ) : ℕ → List ℕ → Prop
  | nil : FreeChain holds pageCount freeListSentinel []
  | cons {curr next : ℕ} {ids : List ℕ} {b body : Bytes} (hmore : curr≠freeListSentinel) (hpos : curr≠0)
      (hlt : curr < pageCount) (hb : holds curr b) (hbody : decodeDataPage b = .ok body)
      (hnext : decodeFreeListPointer body = .ok next) (hrest : FreeChain holds pageCount next ids)
        (hnew : curr ∉ ids) :
      FreeChain holds pageCount curr (curr::ids)

/-- The file is not empty, has a valid header, and its free list can be read to the end. -/
def ListReadable (ctx : Option Err) (p : FilePager) : Prop :=
  ctx.or p.openErr = none ∧ p.files.outcome 0 = .ok ∧ p.files.size≠0 ∧
    ∃ h f n ids, HeaderFound p.files h f n ∧
    FreeChain f.Holds h.pageCount h.freeListHead ids ∧ ∀ i < ids.length, p.files.outcome (n+i) = .ok

/-- The same by what `Open` does. -/
def ReadsList (ctx : Option Err) (p : FilePager) : Prop :=
  ctx.or p.openErr = none ∧ ∃ size p1 h p2 freeSet p3, stat p = (.ok size,p1) ∧ size≠0 ∧
    readHeader p1 = (.ok h,p2) ∧
    walkFreeList h.pageCount (h.pageCount+1) h.freeListHead [] p2 = (.ok freeSet,p3)

end Contents

section State
variable {α β : Type} {x : Cmd α} {s s' : FilePager}

/-- The program does not change whether the pager is open. -/
def Stays (x : Cmd α) : Prop := ∀ s, (x s).2.state = s.state

lemma Stays.pure (a : α) : Stays (pure a : Cmd α) := fun _ => rfl
lemma Stays.fail (e : Err) : Stays (fail e : Cmd α) := fun _ => rfl

lemma Stays.bind {f : α → Cmd β} (hx : Stays x) (hf : ∀ a, Stays (f a)) : Stays (x >>= f) := by
  intro s
  have hs := hx s
  rcases hrun : x s with ⟨e | a,s'⟩ <;> rw [hrun] at hs
  · rwa [Prog.bind_error hrun]
  · rw [Prog.bind_ok hrun]
    exact (hf a s').trans hs

lemma Stays.modify {f : FilePager → FilePager} (h : ∀ s, (f s).state = s.state) :
    Stays (Prog.modify f) := h

lemma Stays.get_bind {f : FilePager → Cmd α} (hf : ∀ s, Stays (f s)) : Stays (Prog.get >>= f) :=
  fun s => hf s s

lemma Stays.fileOp (onOk : Files → Except Err α × Files) (onFail : Option Bytes → Files → Files) :
    Stays (fileOp onOk onFail) := by
  intro s
  unfold Pager.fileOp
  cases s.files.script.headD .ok <;> rfl

lemma of_wrap_error {text : String} {e : Failure}
    (h : wrap text x s = (.error e,s')) : ∃ e', x s = (.error e',s') := by
  rcases hrun : x s with ⟨e' | a,s₁⟩
  · rw [wrap,Prog.handle_error hrun] at h
    cases e' <;> exact ⟨_,by rw [(Prod.mk.inj h).2]⟩
  · rw [wrap,Prog.handle_ok hrun] at h
    cases h

lemma of_wrap_ok {text : String} {a : α} (h : wrap text x s = (.ok a,s')) :
    x s = (.ok a,s') := by
  rcases hrun : x s with ⟨e' | a,s₁⟩
  · rw [wrap,Prog.handle_error hrun] at h
    cases e' <;> cases h
  · rwa [wrap,Prog.handle_ok hrun] at h

lemma Stays.wrap {text : String} (hx : Stays x) : Stays (wrap text x) := by
  intro s
  rcases hrun : Pager.wrap text x s with ⟨e | a,s'⟩
  · obtain ⟨e',he⟩ := of_wrap_error hrun
    simpa [he] using hx s
  · simpa [of_wrap_ok hrun] using hx s

lemma Stays.codec (r : Except Err α) : Stays (codec r) := fun _ => rfl

lemma Stays.attempt (hx : Stays x) : Stays (attempt x) := by
  intro s
  have hs := hx s
  unfold Pager.attempt
  rcases hrun : x s with ⟨(e | _) | a,s'⟩ <;> rw [hrun] at hs <;> exact hs

lemma Stays.readHeader : Stays readHeader := by
  refine .bind (.attempt (.fileOp _ _)) fun primary => ?_
  cases primary.bind decodeHeader with
  | ok h => exact .pure h
  | error e =>
    refine .bind (.wrap (.fileOp _ _)) fun buf => .bind (.wrap (.codec _)) fun h =>
      .bind ?_ fun _ => .pure h
    refine .bind (.attempt (.fileOp _ _)) fun written => ?_
    split
    · exact .bind (.attempt (.fileOp _ _)) fun _ => .pure _
    · exact .pure _

lemma Stays.walkFreeList (pageCount n curr : ℕ) (freeSet : List ℕ) :
    Stays (walkFreeList pageCount n curr freeSet) := by
  induction n generalizing curr freeSet with
  | zero => exact .fail _
  | succ n ih =>
    unfold Pager.walkFreeList
    split
    · exact .pure _
    split
    · exact .fail _
    · exact .bind (.wrap (.bind (.wrap (.fileOp _ _)) fun _ => .codec _)) fun _ =>
        .bind (.wrap (.codec _)) fun _ => ih _ _

lemma Stays.writeHeader (c l : UInt64) : Stays (writeHeader c l) :=
  .get_bind fun _ => .bind (.wrap (.fileOp _ _)) fun _ => .bind (.wrap (.fileOp _ _)) fun _ =>
    .bind (.wrap (.fileOp _ _)) fun _ =>
    .wrap (.fileOp _ _)

lemma Stays.applyPages (pages : List (ℕ × Bytes)) : Stays (applyPages pages) := by
  induction pages with
  | nil => exact .pure _
  | cons page pages ih => exact .bind (.codec _) fun _ => .bind (.wrap (.fileOp _ _)) fun _ => ih

lemma Stays.applyGroups (gs : List (List WALRecord)) : Stays (applyGroups gs) := by
  induction gs with
  | nil => exact .pure _
  | cons group gs ih =>
    unfold Pager.applyGroups
    split
    · exact .get_bind fun s => .bind (.applyPages _) fun _ => .bind (.wrap (.fileOp _ _)) fun _ => ih
    · exact ih

lemma Stays.replayWAL : Stays replayWAL := by
  refine .get_bind fun s => ?_
  split
  · exact .pure _
  · refine .bind (.wrap (.fileOp _ _)) fun walData => ?_
    dsimp only
    split
    · exact .bind (.applyGroups _) fun _ => .bind (.wrap (.fileOp _ _)) fun _ => .modify fun _ => rfl
    · exact .fail _

lemma Stays.openListed {h : PagerHeader} {freeSet : List ℕ} (s : FilePager) :
    (openListed h freeSet s).2.state = .opened := by
  have hrest : Stays (if freeSet.length≠h.freePageCount then
    Pager.fail (.wrap "pager: free-list" .freeListCorrupt) else do
      let walSize ← Pager.wrap "pager: stat WAL file" statWAL
      Prog.modify fun s => { s with walSize := walSize }
      Pager.replayWAL) := by
    split
    · exact .fail _
    · exact .bind (.wrap (.fileOp _ _)) fun _ => .bind (.modify fun _ => rfl) fun _ => .replayWAL
  exact hrest _

lemma of_bind_error {f : α → Cmd β} {e : Failure} (h : (x >>= f) s = (.error e,s')) :
    x s = (.error e,s') ∨ ∃ a s₁, x s = (.ok a,s₁) ∧ f a s₁ = (.error e,s') := by
  rcases hrun : x s with ⟨e' | a,s₁⟩
  · rw [Prog.bind_error hrun] at h
    cases h
    exact .inl rfl
  · rw [Prog.bind_ok hrun] at h
    exact .inr ⟨a,s₁,rfl,h⟩

lemma Stays.eq (hx : Stays x) {r : Except Failure α} (h : x s = (r,s')) :
    s'.state = s.state := by
  have hs := hx s
  rwa [h] at hs

/-- A pager whose `Open` has failed is open exactly if the error came after the free list was read. -/
lemma openPager_state {ctx : Option Err} {p p' : FilePager} {e : Failure} (hnew : p.state = .neverOpened)
    (h : openPager ctx p = (.error e,p')) : p'.state = .opened ↔ ReadsList ctx p := by
  have hclosed {s : FilePager} (hs : s.state = p.state) : ¬s.state = .opened := by
    rw [hs,hnew]
    decide
  unfold openPager at h
  rw [Prog.bind_ok (Prog.get_run p)] at h
  cases hctx : ctx.or p.openErr with
  | some err =>
    rw [hctx] at h
    exact iff_of_false (hclosed ((Stays.fail err).eq h)) fun hl => by cases hctx.symm.trans hl.1
  | none =>
    simp only [hctx,hnew,reduceCtorEq,if_false,ne_eq,not_true_eq_false] at h
    unfold openFile at h
    obtain herr | ⟨size,p1,hsize,h⟩ := of_bind_error h
    · obtain ⟨err,hstat⟩ := of_wrap_error herr
      refine iff_of_false (hclosed ((Stays.fileOp _ _).eq hstat)) ?_
      rintro ⟨-,_,_,_,_,_,_,hok,-⟩
      cases hstat.symm.trans hok
    have hstat := of_wrap_ok hsize
    have h1 : p1.state = p.state := (Stays.fileOp _ _).eq hstat
    have hunread (hno : ∀ h p2 freeSet p3, readHeader p1 = (.ok h,p2) →
        walkFreeList h.pageCount (h.pageCount+1) h.freeListHead [] p2≠(.ok freeSet,p3)) :
          ¬ReadsList ctx p := by
      rintro ⟨-,size',q1,h,p2,freeSet,p3,hok,-,hh,hw⟩
      cases hstat.symm.trans hok
      exact hno h p2 freeSet p3 hh hw
    by_cases hzero : size = 0
    · rw [if_pos hzero] at h
      obtain herr | ⟨_,p2,-,h⟩ := of_bind_error h
      · refine iff_of_false (hclosed (((Stays.writeHeader _ _).eq herr).trans h1)) ?_
        rintro ⟨-,_,_,_,_,_,_,hok,hne,-⟩
        cases hstat.symm.trans hok
        exact hne hzero
      · cases h
    rw [if_neg hzero] at h
    obtain herr | ⟨hd,p2,hh,h⟩ := of_bind_error h
    · refine iff_of_false (hclosed ((Stays.readHeader.eq herr).trans h1)) (hunread fun _ _ _ _ hok => ?_)
      cases herr.symm.trans hok
    have h2 : p2.state = p.state := (Stays.readHeader.eq hh).trans h1
    obtain herr | ⟨freeSet,p3,hw,h⟩ := of_bind_error h
    · refine iff_of_false (hclosed (((Stays.walkFreeList _ _ _ _).eq herr).trans h2))
        (hunread fun _ _ _ _ hok hwalk => ?_)
      cases hh.symm.trans hok
      cases herr.symm.trans hwalk
    · refine iff_of_true ?_ ⟨hctx,size,p1,hd,p2,freeSet,p3,hstat,hzero,hh,hw⟩
      have hopened := @Stays.openListed hd freeSet p3
      rwa [h] at hopened

end State

section Reading
variable {s s' : FilePager} {pageID : ℕ} {h : PagerHeader}

/-- After a file operation that changes nothing. -/
def FilePager.tick (s : FilePager) : FilePager :=
  { s with files := { s.files with script := s.files.script.tail } }

lemma outcome_next {f g : Files} (h : g.script = f.script.tail) (n : ℕ) :
    g.outcome n = f.outcome (1+n) := by
  rw [Files.outcome,h]
  cases hf : f.script <;> simp [Files.outcome,hf,Nat.add_comm 1]

lemma headD_script (f : Files) : f.script.headD .ok = f.outcome 0 := by
  cases hf : f.script <;> simp [Files.outcome,hf]

lemma holds_congr {f g : Files} (hview : f.view = g.view) (hsize : f.size = g.size) :
    f.Holds = g.Holds := by
  funext pageID b
  rw [Files.Holds,Files.Holds,hview,hsize]

section Runs
variable {α : Type} {onOk : Files → Except Err α × Files}
  {onFail : Option Bytes → Files → Files} {x : Cmd α}

lemma fileOp_ok (h : s.files.outcome 0 = .ok) :
    fileOp onOk onFail s = ((onOk s.tick.files).1.mapError .err,
      { s with files := (onOk s.tick.files).2 }) := by
  rw [fileOp,headD_script,h]
  rfl

lemma fileOp_fail {left : Option Bytes} (h : s.files.outcome 0 = .fail left) :
    fileOp onOk onFail s = (.error (.err .io),{ s with files := onFail left s.tick.files }) := by
  rw [fileOp,headD_script,h]
  rfl

lemma fileOp_crash (h : s.files.outcome 0 = .crash) : fileOp onOk onFail s = (.error .crash,s.tick) := by
  rw [fileOp,headD_script,h]
  rfl

lemma attempt_ok {a : α} (h : x s = (.ok a,s')) : attempt x s = (.ok (.ok a),s') := by rw [attempt,h]
lemma attempt_err {e : Err} (h : x s = (.error (.err e),s')) :
    attempt x s = (.ok (.error e),s') := by rw [attempt,h]
lemma attempt_crash (h : x s = (.error .crash,s')) : attempt x s = (.error .crash,s') := by rw [attempt,h]

end Runs

lemma readAt_ok_iff {b : Bytes} :
    readAt pageID s = (.ok b,s') ↔ s.files.outcome 0 = .ok ∧ s.files.Holds pageID b ∧ s' = s.tick := by
  unfold readAt
  cases ho : s.files.outcome 0 with
  | fail left => simp [fileOp_fail ho]
  | crash => simp [fileOp_crash ho]
  | ok =>
    rw [fileOp_ok ho,Files.Holds]
    cases place pageID with
    | none => simp [Except.mapError]
    | some k =>
      by_cases hk : (k+1)*pageSize ≤ s.files.size
      · simp only [FilePager.tick,hk,if_true,Except.mapError,Prod.mk.injEq,Except.ok.injEq,true_and,
          Option.some.injEq,exists_eq_left']
        exact and_congr_right fun _ => eq_comm
      · simp [FilePager.tick,hk,Except.mapError]

lemma of_readAt_error {e : Err} (h : readAt pageID s = (.error (.err e),s')) :
    s' = s.tick ∧ s.files.outcome 0≠.crash := by
  unfold readAt at h
  cases ho : s.files.outcome 0 with
  | crash => simp [fileOp_crash ho] at h
  | fail left => exact ⟨((Prod.mk.inj ((fileOp_fail ho).symm.trans h)).2).symm,nofun⟩
  | ok =>
    refine ⟨((Prod.mk.inj ((fileOp_ok ho).symm.trans h)).2).symm.trans ?_,nofun⟩
    split
    · rfl
    · split_ifs <;> rfl

/-- Writing the mirror back goes on to the end unless the process dies. -/
lemma repairPrimary_run (b : Bytes) (s : FilePager) :
    (∃ s', repairPrimary b s = (.ok (),s') ∧ s.files.outcome 0≠.crash ∧
      (s.files.outcome 0 = .ok → s.files.outcome 1≠.crash) ∧
      s'.files.Holds = (s.files.repaired b (s.files.outcome 0)).Holds ∧
      ∀ i, s'.files.outcome i = s.files.outcome ((if s.files.outcome 0 = .ok then 2 else 1)+i)) ∨
    (∃ s', repairPrimary b s = (.error .crash,s')) ∧
      (s.files.outcome 0 = .crash ∨ s.files.outcome 0 = .ok ∧ s.files.outcome 1 = .crash) := by
  have hplace : place headerPageID = some headerPageID := by decide
  cases ho : s.files.outcome 0 with
  | crash => exact .inr ⟨⟨_,Prog.bind_error (attempt_crash (fileOp_crash ho))⟩,.inl rfl⟩
  | fail left =>
    refine .inl ⟨_,Prog.bind_ok (attempt_err (fileOp_fail ho)),nofun,nofun,?_,?_⟩
    · rw [hplace]
      cases left <;> rfl
    · rw [hplace]
      cases left <;> exact outcome_next rfl
  | ok =>
    have hwrite : writeAt headerPageID b s =
      (.ok (),{ s with files := s.tick.files.write headerPageID b }) := by
      rw [writeAt,fileOp_ok ho,hplace]
      rfl
    have hone : ({ s with files := s.tick.files.write headerPageID b } : FilePager).files.outcome
      0 = s.files.outcome 1 :=
      outcome_next rfl 0
    have htwo : ∀ {g : Files}, g.script = s.files.script.tail.tail →
      ∀ i, g.outcome i = s.files.outcome (2+i) := by
      intro g hg i
      rw [outcome_next (f := s.tick.files) hg,outcome_next (f := s.files) rfl,← Nat.add_assoc]
    have hrun := Prog.bind_ok (f := fun written : Except Err Unit => if written.isOk then do
      let _ ← attempt sync else pure ()) (attempt_ok hwrite)
    cases h1 : s.files.outcome 1 with
    | crash =>
      refine .inr ⟨⟨_,hrun.trans (Prog.bind_error (attempt_crash (fileOp_crash (hone.trans h1))))⟩,
        .inr ⟨rfl,rfl⟩⟩
    | fail left =>
      refine .inl ⟨_,hrun.trans (Prog.bind_ok (attempt_err (fileOp_fail (hone.trans h1)))),nofun,
        nofun,rfl,?_⟩
      exact htwo rfl
    | ok =>
      refine .inl ⟨_,hrun.trans (Prog.bind_ok (attempt_ok (fileOp_ok (hone.trans h1)))),nofun,nofun,
        ?_,htwo rfl⟩
      exact holds_congr rfl rfl

lemma wrap_ok_iff {α : Type} {text : String} {x : Cmd α} {a : α} :
    wrap text x s = (.ok a,s') ↔ x s = (.ok a,s') :=
  ⟨of_wrap_ok,fun h => Prog.handle_ok h⟩

lemma codec_ok_iff {α : Type} {x : Except Err α} {a : α} :
    codec x s = (.ok a,s') ↔ x = .ok a ∧ s' = s := by
  cases x <;> simp [codec,Except.mapError,eq_comm]

lemma readBodyUnchecked_ok_iff {body : Bytes} : readBodyUnchecked pageID s = (.ok body,s') ↔
    s.files.outcome 0 = .ok ∧ (∃ b, s.files.Holds pageID b ∧ decodeDataPage b = .ok body) ∧
      s' = s.tick := by
  constructor
  · intro h
    obtain ⟨b,s₁,hread,h⟩ := Prog.of_bind_ok h
    obtain ⟨ho,hb,rfl⟩ := readAt_ok_iff.mp (wrap_ok_iff.mp hread)
    obtain ⟨hbody,rfl⟩ := codec_ok_iff.mp h
    exact ⟨ho,⟨b,hb,hbody⟩,rfl⟩
  · rintro ⟨ho,⟨b,hb,hbody⟩,rfl⟩
    exact (Prog.bind_ok (wrap_ok_iff.mpr (readAt_ok_iff.mpr ⟨ho,hb,rfl⟩))).trans
      (codec_ok_iff.mpr ⟨hbody,rfl⟩)

lemma Files.Holds.unique {f : Files} {b b' : Bytes} (h : f.Holds pageID b)
    (h' : f.Holds pageID b') : b = b' := by
  obtain ⟨k,hk,-,rfl⟩ := h
  obtain ⟨k',hk',-,rfl⟩ := h'
  rw [Option.some.inj (hk.symm.trans hk')]

lemma walkFreeList_ok_iff {pageCount n curr : ℕ} {seen : List ℕ} :
    (∃ freeSet s', walkFreeList pageCount n curr seen s = (.ok freeSet,s')) ↔
      ∃ ids, FreeChain s.files.Holds pageCount curr ids ∧ ids.length < n ∧ (∀ id ∈ ids, id ∉ seen) ∧
        ∀ i < ids.length, s.files.outcome i = .ok := by
  induction n generalizing curr seen s with
  | zero => simp [walkFreeList,fail]
  | succ n ih =>
    unfold walkFreeList
    by_cases hend : curr = freeListSentinel
    · subst hend
      simp only [if_true]
      exact iff_of_true ⟨_,_,rfl⟩ ⟨[],.nil,by simp,by simp,by simp⟩
    rw [if_neg hend]
    split_ifs with hbad
    · refine iff_of_false (by simp [fail]) ?_
      rintro ⟨ids,hchain,-,hnew,-⟩
      cases hchain with
      | nil => exact hend rfl
      | cons _ hpos hlt _ _ _ _ _ =>
        obtain h | h | h := hbad
        · exact hpos h
        · exact hlt.not_ge h
        · exact hnew _ (List.mem_cons_self ..) h
    constructor
    · rintro ⟨freeSet,s',h⟩
      obtain ⟨body,s₁,hread,h⟩ := Prog.of_bind_ok h
      obtain ⟨ho,⟨b,hb,hbody⟩,rfl⟩ := readBodyUnchecked_ok_iff.mp (wrap_ok_iff.mp hread)
      obtain ⟨next,s₂,hcodec,h⟩ := Prog.of_bind_ok h
      obtain ⟨hnext,rfl⟩ := codec_ok_iff.mp (wrap_ok_iff.mp hcodec)
      obtain ⟨ids,hchain,hlen,hnew,hok⟩ := ih.mp ⟨freeSet,s',h⟩
      push Not at hbad
      refine ⟨curr::ids,.cons hend hbad.1 hbad.2.1 hb hbody hnext hchain fun hm =>
        hnew _ hm (List.mem_cons_self ..),
        Nat.succ_lt_succ hlen,?_,?_⟩
      · exact List.forall_mem_cons.mpr ⟨hbad.2.2,fun id hid hs => hnew id hid (List.mem_cons_of_mem _ hs)⟩
      · rintro (_ | i) hi
        · exact ho
        · rw [Nat.add_comm,← outcome_next (g := s.tick.files) rfl]
          exact hok i (Nat.lt_of_succ_lt_succ hi)
    · rintro ⟨ids,hchain,hlen,hnew,hok⟩
      cases hchain with
      | nil => exact absurd rfl hend
      | @cons _ next ids b body _ _ _ hb hbody hnext hrest hfresh =>
        have hread := readBodyUnchecked_ok_iff.mpr ⟨hok 0 (Nat.succ_pos _),⟨b,hb,hbody⟩,rfl⟩
        have hunseen : ∀ id ∈ ids, id ∉ curr::seen := fun id hid => by
          rw [List.mem_cons,not_or]
          exact ⟨fun he => hfresh (he ▸ hid),hnew id (List.mem_cons_of_mem _ hid)⟩
        have hreads : ∀ i < ids.length, s.tick.files.outcome i = .ok := fun i hi => by
          rw [outcome_next (f := s.files) rfl]
          exact hok (1+i) (by simpa [Nat.add_comm] using hi)
        obtain ⟨freeSet,s',h⟩ :=
          (ih (s := s.tick)).mpr ⟨ids,hrest,Nat.lt_of_succ_lt_succ hlen,hunseen,hreads⟩
        exact ⟨freeSet,s',(Prog.bind_ok (wrap_ok_iff.mpr hread)).trans
          ((Prog.bind_ok (wrap_ok_iff.mpr (codec_ok_iff.mpr ⟨hnext,rfl⟩))).trans h)⟩

lemma FreeChain.length_lt {holds : ℕ → Bytes → Prop} {pageCount curr : ℕ} {ids : List ℕ}
    (h : FreeChain holds pageCount curr ids) : ids.length < pageCount+1 := by
  have hsub : ids.Nodup ∧ ∀ id ∈ ids, id < pageCount := by
    induction h with
    | nil => simp
    | cons _ _ hlt _ _ _ _ hnew ih =>
      exact ⟨List.nodup_cons.mpr ⟨hnew,ih.1⟩,List.forall_mem_cons.mpr ⟨hlt,ih.2⟩⟩
  have hle := (List.subperm_of_subset hsub.1 fun id hid => List.mem_range.mpr (hsub.2 id hid)).length_le
  rw [List.length_range] at hle
  omega

lemma readMirror_ok_iff : readMirror s = (.ok h,s') ↔
    s.files.outcome 0 = .ok ∧ ∃ b, s.files.Holds mirrorHeaderPageID b ∧ decodeHeader b = .ok h ∧
      repairPrimary b s.tick = (.ok (),s') := by
  constructor
  · intro hrun
    obtain ⟨b,s₁,hread,hrun⟩ := Prog.of_bind_ok hrun
    obtain ⟨ho,hb,rfl⟩ := readAt_ok_iff.mp (wrap_ok_iff.mp hread)
    obtain ⟨h',s₂,hcodec,hrun⟩ := Prog.of_bind_ok hrun
    obtain ⟨hh,rfl⟩ := codec_ok_iff.mp (wrap_ok_iff.mp hcodec)
    obtain ⟨_,s₃,hrepair,hrun⟩ := Prog.of_bind_ok hrun
    obtain ⟨rfl,rfl⟩ := Prog.of_pure_ok hrun
    exact ⟨ho,b,hb,hh,hrepair⟩
  · rintro ⟨ho,b,hb,hh,hrepair⟩
    exact (Prog.bind_ok (wrap_ok_iff.mpr (readAt_ok_iff.mpr ⟨ho,hb,rfl⟩))).trans
      ((Prog.bind_ok (wrap_ok_iff.mpr (codec_ok_iff.mpr ⟨hh,rfl⟩))).trans (Prog.bind_ok hrepair))

/-- The mirror is read exactly if page 0 gives no header. -/
lemma readHeader_ok_iff : readHeader s = (.ok h,s') ↔
    (s.files.outcome 0 = .ok ∧ (∃ b, s.files.Holds headerPageID b ∧ decodeHeader b = .ok h) ∧
      s' = s.tick) ∨
    (s.files.outcome 0≠.crash ∧ (s.files.outcome 0 = .ok → ∀ b h, s.files.Holds headerPageID b →
      decodeHeader b≠.ok h) ∧
      readMirror s.tick = (.ok h,s')) := by
  rcases hr : readAt headerPageID s with ⟨(e | _) | b,s₁⟩
  · obtain ⟨rfl,hrun⟩ := of_readAt_error hr
    have hno : ∀ b, ¬(s.files.outcome 0 = .ok ∧ s.files.Holds headerPageID b) := fun b hb => by
      cases hr.symm.trans (readAt_ok_iff.mpr ⟨hb.1,hb.2,rfl⟩)
    rw [readHeader,Prog.bind_ok (attempt_err hr)]
    refine ⟨fun h => .inr ⟨hrun,fun ho b _ hb => absurd ⟨ho,hb⟩ (hno b),h⟩,?_⟩
    rintro (⟨ho,⟨b,hb,-⟩,-⟩ | ⟨-,-,h⟩)
    exacts [absurd ⟨ho,hb⟩ (hno b),h]
  · have hcrash : s.files.outcome 0 = .crash := by
      by_contra hne
      unfold readAt at hr
      cases ho : s.files.outcome 0 with
      | crash => exact hne ho
      | fail left => cases (fileOp_fail ho).symm.trans hr
      | ok =>
        have := congrArg Prod.fst ((fileOp_ok ho).symm.trans hr)
        revert this
        simp only
        split <;> [skip; split_ifs] <;> simp [Except.mapError]
    rw [readHeader,Prog.bind_error (attempt_crash hr)]
    simp [hcrash]
  · obtain ⟨ho,hb,rfl⟩ := readAt_ok_iff.mp hr
    rw [readHeader,Prog.bind_ok (attempt_ok hr)]
    cases hd : decodeHeader b with
    | ok h' =>
      simp only [Except.bind,hd,Prog.pure_run,Prod.mk.injEq,Except.ok.injEq]
      constructor
      · rintro ⟨rfl,rfl⟩
        exact .inl ⟨ho,⟨b,hb,hd⟩,rfl⟩
      · rintro (⟨-,⟨b',hb',hd'⟩,rfl⟩ | ⟨-,hno,-⟩)
        · rw [hb.unique hb',hd'] at hd
          exact ⟨(Except.ok.inj hd).symm,rfl⟩
        · exact absurd hd (hno ho b h' hb)
    | error e =>
      simp only [Except.bind,hd]
      constructor
      · intro hm
        refine .inr ⟨by simp [ho],fun _ b' h' hb' hd' => ?_,hm⟩
        rw [hb.unique hb',hd'] at hd
        cases hd
      · rintro (⟨-,⟨b',hb',hd'⟩,-⟩ | ⟨-,-,hm⟩)
        · rw [hb.unique hb',hd'] at hd
          cases hd
        · exact hm

lemma readHeader_found_iff {p : FilePager} {P : (ℕ → Bytes → Prop) → (ℕ → Outcome) → Prop} :
    (∃ s', readHeader p.tick = (.ok h,s') ∧ P s'.files.Holds s'.files.outcome) ↔
      ∃ f n, HeaderFound p.files h f n ∧ P f.Holds fun i => p.files.outcome (n+i) := by
  have hnext : ∀ i, p.tick.files.outcome i = p.files.outcome (1+i) := outcome_next rfl
  have hnext' : p.tick.tick.files.outcome = fun i => p.files.outcome (2+i) := by
    funext i
    rw [outcome_next (f := p.tick.files) rfl,hnext,← Nat.add_assoc]
  have hnext'' : ∀ i, p.tick.tick.tick.files.outcome i = p.files.outcome (3+i) := fun i => by
    rw [outcome_next (f := p.tick.tick.files) rfl,hnext']
    exact congrArg _ (Nat.add_assoc 2 1 i).symm
  have hrepaired : ∀ b o, (p.tick.tick.tick.files.repaired b o).Holds = (p.files.repaired b o).Holds := by
    intro b o
    rcases o with _ | (_ | left) | _ <;> exact holds_congr rfl rfl
  simp only [readHeader_ok_iff,readMirror_ok_iff,hnext,hnext']
  constructor
  · rintro ⟨s',⟨ho,⟨b,hb,hd⟩,rfl⟩ | ⟨hrun,hbad,ho,b,hb,hd,hrepair⟩,hP⟩
    · rw [hnext'] at hP
      exact ⟨p.files,2,.primary ho hb hd,hP⟩
    · obtain ⟨s'',hs'',h3,h4,hholds,hout⟩ | ⟨⟨s'',hs''⟩,-⟩ := repairPrimary_run b p.tick.tick.tick
      · obtain rfl := (Prod.mk.inj (hrepair.symm.trans hs'')).2
        rw [hholds,hrepaired,funext hout] at hP
        simp only [hnext''] at h3 h4 hP
        refine ⟨_,_,.mirror hbad ho hb hd ⟨hrun,h3,h4⟩,?_⟩
        split_ifs at hP ⊢ <;> simpa only [← Nat.add_assoc] using hP
      · cases hrepair.symm.trans hs''
  · rintro ⟨f,n,hfound,hP⟩
    cases hfound with
    | primary ho hb hd => exact ⟨_,.inl ⟨ho,⟨_,hb,hd⟩,rfl⟩,by rwa [hnext']⟩
    | @mirror b hbad ho hb hd hruns =>
      obtain ⟨s',hs',-,-,hholds,hout⟩ | ⟨-,hcrash⟩ := repairPrimary_run b p.tick.tick.tick
      · refine ⟨s',.inr ⟨hruns.1,hbad,ho,b,hb,hd,hs'⟩,?_⟩
        rw [hholds,hrepaired,funext hout]
        simp only [hnext'']
        split_ifs at hP ⊢ <;> simpa only [← Nat.add_assoc] using hP
      · simp only [hnext''] at hcrash
        obtain h3 | ⟨h3,h4⟩ := hcrash
        exacts [absurd h3 hruns.2.1,absurd h4 (hruns.2.2 h3)]

lemma listReadable_iff {ctx : Option Err} {p : FilePager} : ListReadable ctx p ↔ ReadsList ctx p := by
  have hstat : ∀ size p1, stat p = (.ok size,p1) ↔ p.files.outcome 0 = .ok ∧ size = p.files.size ∧
    p1 = p.tick := by
    intro size p1
    unfold stat
    cases ho : p.files.outcome 0 with
    | crash => simp [fileOp_crash ho]
    | fail left => simp [fileOp_fail ho]
    | ok =>
      rw [fileOp_ok ho]
      simp only [Except.mapError,Prod.mk.injEq,Except.ok.injEq,true_and]
      exact and_congr eq_comm eq_comm
  have hlist : ∀ h : PagerHeader, (∃ p2 freeSet p3, readHeader p.tick = (.ok h,p2) ∧
      walkFreeList h.pageCount (h.pageCount+1) h.freeListHead [] p2 = (.ok freeSet,p3)) ↔
      ∃ f n ids, HeaderFound p.files h f n ∧ FreeChain f.Holds h.pageCount h.freeListHead ids ∧
        ∀ i < ids.length, p.files.outcome (n+i) = .ok := by
    intro h
    have hfound := readHeader_found_iff (p := p) (h := h) (P := fun holds out =>
      ∃ ids, FreeChain holds h.pageCount h.freeListHead ids ∧ ∀ i < ids.length, out i = .ok)
    have hwalk : ∀ p2, (∃ freeSet p3,
      walkFreeList h.pageCount (h.pageCount+1) h.freeListHead [] p2 = (.ok freeSet,p3)) ↔
        ∃ ids, FreeChain p2.files.Holds h.pageCount h.freeListHead ids ∧
          ∀ i < ids.length, p2.files.outcome i = .ok := by
      intro p2
      rw [walkFreeList_ok_iff]
      refine exists_congr fun ids => and_congr_right fun hchain => ?_
      simp [hchain.length_lt]
    simp only [exists_and_left,hwalk,hfound]
  unfold ListReadable ReadsList
  simp only [hstat]
  refine and_congr_right fun _ => ⟨?_,?_⟩
  · rintro ⟨ho,hsize,h,f,n,ids,hlisted⟩
    obtain ⟨p2,freeSet,p3,hread,hwalk⟩ := (hlist h).mpr ⟨f,n,ids,hlisted⟩
    exact ⟨_,_,h,p2,freeSet,p3,⟨ho,rfl,rfl⟩,hsize,hread,hwalk⟩
  · rintro ⟨_,_,h,p2,freeSet,p3,⟨ho,rfl,rfl⟩,hsize,hread,hwalk⟩
    exact ⟨ho,hsize,h,(hlist h).mp ⟨p2,freeSet,p3,hread,hwalk⟩⟩

end Reading

lemma guarded_closed {α : Type} {ctx : Option Err} {x : Cmd α} {s : FilePager}
    (hs : s.state≠.opened) : ∃ e, guarded ctx x s = (.error e,s) := by
  cases ctx with
  | some err => exact ⟨_,rfl⟩
  | none =>
    have hcheck : ∃ e, checkState s = (.error e,s) := by
      unfold checkState
      rw [Prog.bind_ok (Prog.get_run s)]
      cases hstate : s.state with
      | opened => exact absurd hstate hs
      | neverOpened => exact ⟨_,rfl⟩
      | closed => exact ⟨_,rfl⟩
    obtain ⟨e,he⟩ := hcheck
    exact ⟨e,Prog.bind_error he⟩

lemma Call.run_closed (c : Call) {s : FilePager} (hs : s.state≠.opened) : ∃ e, c.run s = (.error e,s) := by
  have hmap {α : Type} {x : Cmd α} {f : α → Answer} (h : ∃ e, x s = (.error e,s)) : ∃ e,
    (f <$> x) s = (.error e,s) := by
    obtain ⟨e,he⟩ := h
    rw [map_eq_pure_bind]
    exact ⟨e,Prog.bind_error he⟩
  cases c <;> exact hmap (guarded_closed hs)

/-- After an `Open` that has failed the calls of the pager fail and leave the files as they are,
exactly if the error came before the free list was read. -/
theorem failed_open_closed_iff {ctx : Option Err} {p p' : FilePager} {e : Err}
    (hnew : p.state = .neverOpened)
    (hfail : openPager ctx p = (.error (.err e),p')) :
    (∀ calls, (∀ r ∈ (Machine.run Call.run calls p').1, ∃ e, r = .error e) ∧
      (Machine.run Call.run calls p').2.files = p'.files) ↔
      ¬ListReadable ctx p := by
  rw [listReadable_iff,← openPager_state hnew hfail]
  constructor
  · intro h hopened
    obtain ⟨e,he⟩ := (h [.pageCount]).1 _ (List.mem_singleton_self _)
    have hcheck : checkState p' = (.ok (),p') := by
      unfold checkState
      rw [Prog.bind_ok (Prog.get_run p'),hopened]
      rfl
    have hcount : pageCount p' = (.ok p'.pageCount,p') := Prog.bind_ok hcheck
    have hok : (Call.run .pageCount p').1 = .ok (.number p'.pageCount) := by
      rw [Call.run,map_eq_pure_bind,Prog.bind_ok hcount]
      rfl
    cases hok.symm.trans he
  · intro hclosed calls
    induction calls with
    | nil => exact ⟨by simp [Machine.run],rfl⟩
    | cons c calls ih =>
      obtain ⟨e,he⟩ := c.run_closed hclosed
      simp only [Machine.run,he]
      refine ⟨fun r hr => ?_,ih.2⟩
      obtain rfl | hr := List.mem_cons.mp hr
      exacts [⟨e,rfl⟩,ih.1 r hr]

/-- A file without headers. -/
def headless : FilePager := { fresh with files := ⟨fun _ => [],[],2*pageSize,[],[]⟩ }

theorem headless_closed : (headless.state = .neverOpened ∧
      openPager none headless =
        (.error (.err (.wrap "pager: mirror header also invalid" .headerCorrupt)),headless)) ∧
    ∀ calls, (∀ r ∈ (Machine.run Call.run calls headless).1, ∃ e, r = .error e) ∧
      (Machine.run Call.run calls headless).2.files = headless.files := by
  have hfail : openPager none headless =
    (.error (.err (.wrap "pager: mirror header also invalid" .headerCorrupt)),headless) := rfl
  refine ⟨⟨rfl,hfail⟩,(failed_open_closed_iff rfl hfail).mpr ?_⟩
  rintro ⟨-,-,-,h,f,n,ids,hfound,-⟩
  cases hfound with
  | primary _ hb hh =>
    obtain ⟨k,-,-,rfl⟩ := hb
    cases hh
  | mirror _ _ hb hh =>
    obtain ⟨k,-,-,rfl⟩ := hb
    cases hh

/-- A file whose header counts one free page, and no page is on its free list. -/
def miscounted : FilePager :=
  { fresh with
    files := ⟨fun _ => encodeHeader (header 2 (.ofNat freeListSentinel) 1),[],2*pageSize,[],[]⟩ }

theorem miscounted_opened :
    (openPager none miscounted).1 = .error (.err (.wrap "pager: free-list" .freeListCorrupt)) ∧
    (pageCount (openPager none miscounted).2).1 = .ok 2 ∧
      (beginTx none (openPager none miscounted).2).1 = .ok () := by
  decide +kernel

end Plomvix.Pager
