import Plomvix.Pager.Opening
import Plomvix.Pager.PageStore

/-! The pager over its files serves what the store of page bodies serves, as long as the file operations
succeed: reads, writes and the begin of a transaction. -/
namespace Plomvix.Pager
open Lib

/-- The open pager has the pages of the store in its file, and those of the open transaction in its
buffer. -/
structure Serves (p : FilePager) (s : PageStore) : Prop where
  opened : p.state = .opened
  healthy : p.files.script = []
  count : p.pageCount.toNat = s.pageCount
  small : s.pageCount ≤ maxPages
  free : ∀ id, id ∈ p.freeSet ↔ id ∈ s.freeList
  page : ∀ id, s.Live id → p.files.Holds id (p.files.view id) ∧
    decodeDataPage (p.files.view id) = .ok (s.body id)
  buffer : p.inTxn = s.txn.isSome ∧ ∀ t ∈ s.txn, ∀ id, p.txnBuffer.lookup id = t id

section Serving
variable {p : FilePager} {s : PageStore}

lemma guarded_run {α : Type} (h : Serves p s) (x : Cmd α) : guarded none x p = x p := by
  have hopen : checkState p = (.ok (),p) := by
    rw [checkState,Prog.bind_ok (Prog.get_run p),h.opened]
    rfl
  exact Prog.bind_ok hopen

lemma live_iff (h : Serves p s) (id : UInt64) : s.Live id.toNat ↔
    ¬(id = 0 ∨ id = 1 ∨ p.pageCount ≤ id ∨ id.toNat ∈ p.freeSet) := by
  rw [PageStore.Live,h.free,UInt64.le_iff_toNat_le,h.count,← UInt64.toNat_inj,← UInt64.toNat_inj]
  have hfirst : firstDataPageID = 2 := rfl
  by_cases hmem : id.toNat ∈ s.freeList
  · simp [hmem]
  · simp only [hmem,not_false_eq_true,and_true,or_false,hfirst]
    have hzero : (0 : UInt64).toNat = 0 := rfl
    have hone : (1 : UInt64).toNat = 1 := rfl
    omega

lemma validatePageID_live (h : Serves p s) {id : UInt64} (hid : s.Live id.toNat) :
    validatePageID p id p = (.ok (),p) := by
  rw [validatePageID,if_neg ((live_iff h id).mp hid)]
  rfl

lemma validatePageID_dead (h : Serves p s) {id : UInt64} (hid : ¬s.Live id.toNat) :
    validatePageID p id p = (.error (.err .invalidPageID),p) := by
  rw [validatePageID,if_pos (not_not.mp (mt (live_iff h id).mpr hid))]
  rfl

lemma place_live (h : Serves p s) {id : ℕ} (hid : s.Live id) : place id = some id := by
  have hmax : maxPages = 2^51 := rfl
  have hlt : id < 2^51 := hmax ▸ hid.2.1.trans_le h.small
  rw [place,Nat.mod_eq_of_lt (by omega),if_pos hlt]

lemma outcome_healthy {f : Files} (h : f.script = []) : f.outcome 0 = .ok := by
  rw [Files.outcome,h]
  rfl

lemma tick_healthy (h : p.files.script = []) : p.tick = p := by
  rw [FilePager.tick,h,List.tail_nil,← h]

lemma fileOp_healthy {α : Type} (onOk : Files → Except Err α × Files)
    (onFail : Option Bytes → Files → Files) (h : p.files.script = []) : fileOp onOk onFail p =
      ((onOk p.files).1.mapError .err,{ p with files := (onOk p.files).2 }) := by
  rw [fileOp_ok (outcome_healthy h),tick_healthy h]

/-- A read is answered as by the store. -/
theorem readPage_serves (h : Serves p s) (id : UInt64) :
    readPage none id p = ((s.readPage id.toNat).1.mapError .err,p) := by
  rw [readPage,guarded_run h,Prog.bind_ok (Prog.get_run p),PageStore.readPage]
  by_cases hid : s.Live id.toNat
  · have hbody : readBodyUnchecked id.toNat p = (.ok (s.body id.toNat),p) := by
      obtain ⟨hholds,hdecode⟩ := h.page _ hid
      exact readBodyUnchecked_ok_iff.mpr
        ⟨outcome_healthy h.healthy,⟨_,hholds,hdecode⟩,(tick_healthy h.healthy).symm⟩
    rw [Prog.bind_ok (validatePageID_live h hid),if_pos hid,h.buffer.1,PageStore.view]
    cases ht : s.txn with
    | none => exact hbody
    | some t =>
      simp only [Option.isSome_some,if_true,h.buffer.2 t ht,Option.bind_some]
      cases t id.toNat with
      | none => exact hbody
      | some b => rfl
  · rw [Prog.bind_error (validatePageID_dead h hid),if_neg hid]
    rfl

/-- The page `encodeDataPage` makes of a body of the right length. -/
def dataPage (body : Bytes) : Bytes := List.replicate 8 0++beBytes 4 (checksumIEEE body)++body

lemma decodeDataPage_encode {body : Bytes} (h : body.length = dataPageBodySize) :
    decodeDataPage (dataPage body) = .ok body := by
  have hcheck : (beBytes 4 (checksumIEEE body)).length = 4 := beBytes_length ..
  have hhead : (List.replicate 8 0++beBytes 4 (checksumIEEE body)).length = 12 := by simp [hcheck]
  rw [decodeDataPage,dataPage,if_neg,List.drop_left' hhead,List.append_assoc,
    List.drop_left' (List.length_replicate ..),List.take_left' hcheck,
    beNat_beBytes (checksumIEEE_lt body),if_neg (not_not.mpr rfl)]
  rw [List.length_append,hhead,h]
  decide

/-- The files after a page has been written and synced. -/
def Files.stored (f : Files) (id : ℕ) (body : Bytes) : Files :=
  (f.write id (dataPage body)).synced

lemma writeBody_run (h : p.files.script = []) {id : ℕ} (hid : place id = some id) {body : Bytes}
    (hb : body.length = dataPageBodySize) : writeBodyUnchecked id body p =
      (.ok (),{ p with files := p.files.stored id body }) := by
  have hwrite : writeAt id (dataPage body) p = (.ok (),
      { p with files := p.files.write id (dataPage body) }) := by
    rw [writeAt,fileOp_healthy _ _ h,hid]
    rfl
  rw [writeBodyUnchecked,encodeDataPage,if_neg (not_not.mpr hb)]
  refine (Prog.bind_ok rfl).trans ((Prog.bind_ok (wrap_ok_iff.mpr hwrite)).trans ?_)
  exact wrap_ok_iff.mpr (fileOp_healthy _ _ h)

lemma view_stored (f : Files) (id : ℕ) (body : Bytes) : (f.stored id body).view =
    Function.update f.view id (dataPage body) := by
  simp [Files.stored,Files.synced,Files.view,Files.write]

/-- A write is answered as by the store, and kept. -/
theorem writePage_serves (h : Serves p s) (id : UInt64) (body : Bytes) : ∃ p',
    writePage none id body p = ((s.writePage id.toNat body).1.mapError .err,p') ∧
      Serves p' (s.writePage id.toNat body).2 := by
  obtain ⟨count,free,bodies,txn⟩ := s
  rw [writePage,guarded_run h,Prog.bind_ok (Prog.get_run p),PageStore.writePage]
  by_cases hid : PageStore.Live ⟨count,free,bodies,txn⟩ id.toNat
  swap
  · rw [Prog.bind_error (validatePageID_dead h hid),if_pos hid]
    exact ⟨p,rfl,h⟩
  rw [Prog.bind_ok (validatePageID_live h hid),if_neg (not_not.mpr hid)]
  by_cases hb : body.length = dataPageBodySize
  swap
  · rw [if_pos hb,if_pos hb]
    exact ⟨p,rfl,h⟩
  rw [if_neg (not_not.mpr hb),if_neg (not_not.mpr hb),h.buffer.1]
  cases txn with
  | none =>
    refine ⟨_,writeBody_run h.healthy (place_live h hid) hb,{ h with page := fun k hk => ?_ }⟩
    obtain ⟨⟨j,hplace,hsize,-⟩,hdecode⟩ := h.page k hk
    obtain rfl := Option.some.inj ((place_live h hk).symm.trans hplace)
    refine ⟨⟨k,hplace,hsize.trans (le_max_left ..),rfl⟩,?_⟩
    simp only [view_stored,Function.update_apply]
    split_ifs
    · exact decodeDataPage_encode hb
    · exact hdecode
  | some t =>
    have hwal : appendWAL id body p = (.ok (),_) :=
      (Prog.bind_ok (Prog.get_run p)).trans
        ((Prog.bind_ok (wrap_ok_iff.mpr (fileOp_healthy _ _ h.healthy))).trans
          (Prog.bind_ok (wrap_ok_iff.mpr (fileOp_healthy _ _ (by exact h.healthy)))))
    refine ⟨_,hwal,{ h with buffer := ⟨h.buffer.1,?_⟩ }⟩
    rintro _ ⟨⟩ k
    change List.lookup k ((id.toNat,body)::p.txnBuffer) = _
    rw [Function.update_apply,← h.buffer.2 t rfl,List.lookup_cons]
    by_cases hk : k = id.toNat
    · rw [if_pos hk,hk,beq_self_eq_true]
    · rw [if_neg hk,beq_false_of_ne hk]

theorem beginTx_serves (h : Serves p s) : ∃ p', beginTx none p = (s.beginTx.1.mapError .err,p') ∧
    Serves p' s.beginTx.2 := by
  rw [beginTx,guarded_run h,Prog.bind_ok (Prog.get_run p),PageStore.beginTx,h.buffer.1]
  cases ht : s.txn with
  | some t => exact ⟨p,rfl,h⟩
  | none => exact ⟨_,rfl,{ h with buffer := ⟨rfl,by simp⟩ }⟩

end Serving
end Plomvix.Pager
