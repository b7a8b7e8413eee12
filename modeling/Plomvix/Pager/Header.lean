import Plomvix.Pager.Files

/-! The header and its mirror. A crash keeps, loses or tears each write that was not synced, and a
torn header is not a valid one. -/
namespace Plomvix.Pager
open Lib

lemma decodeHeader_encode (pageCount freeListHead freeCount : UInt64) :
    decodeHeader (encodeHeader (header pageCount freeListHead freeCount)) =
      .ok (header pageCount freeListHead freeCount) := by
  generalize hh : header pageCount freeListHead freeCount = h
  have hlen : (encodeHeader h).length = pageSize := by simp [encodeHeader,headerFields,pageSize]
  have hmagic : beNat ((encodeHeader h).take 4) = h.magic :=
    beNat_beBytes (w := 4) (by rw [← hh]; change magicNumber < _; decide)
  have hversion : beNat (((encodeHeader h).drop 4).take 4) = h.version :=
    beNat_beBytes (w := 4) (by rw [← hh]; change formatVersion < _; decide)
  have hsize : beNat (((encodeHeader h).drop 8).take 4) = h.pageSize :=
    beNat_beBytes (w := 4) (by rw [← hh]; change pageSize < _; decide)
  have hcount : beNat (((encodeHeader h).drop 12).take 8) = h.pageCount :=
    (beNat_beBytes (w := 8) (by rw [← hh]; exact pageCount.toNat_lt))
  have hhead : beNat (((encodeHeader h).drop 20).take 8) = h.freeListHead :=
    (beNat_beBytes (w := 8) (by rw [← hh]; exact freeListHead.toNat_lt))
  have hfree : beNat (((encodeHeader h).drop 28).take 8) = h.freePageCount :=
    (beNat_beBytes (w := 8) (by rw [← hh]; exact freeCount.toNat_lt))
  have hfields : (encodeHeader h).take 36 = headerFields h := rfl
  have hsum : beNat (((encodeHeader h).drop 36).take 4) = checksumIEEE (headerFields h) :=
    (beNat_beBytes (w := 4) (checksumIEEE_lt _))
  have h1 : h.magic = magicNumber := hh ▸ rfl
  have h2 : h.version = formatVersion := hh ▸ rfl
  have h3 : h.pageSize = pageSize := hh ▸ rfl
  rw [decodeHeader,hmagic,hversion,hsize,hcount,hhead,hfree,hfields,hsum,if_neg (not_not.mpr hlen),
    if_neg (not_not.mpr h1),
    if_neg (not_not.mpr h2),if_neg (not_not.mpr h3),if_neg (not_not.mpr rfl)]

/-- What a crash makes of the writes that were not synced. -/
inductive Settles : List (ℕ × Bytes) → (ℕ → Bytes) → (ℕ → Bytes) → Prop
  | nil (d : ℕ → Bytes) : Settles [] d d
  | kept {k b ws d d'} (h : Settles ws (Function.update d k b) d') : Settles ((k,b)::ws) d d'
  | lost {k b ws d d'} (h : Settles ws d d') : Settles ((k,b)::ws) d d'
  | torn {k b ws d d'} (t : Bytes) (ht : ¬(decodeHeader t).isOk)
      (h : Settles ws (Function.update d k t) d') : Settles ((k,b)::ws) d d'

/-- The file, whether a process has it open, and what it should hold: the header of the last
`writeHeader` that was completed, that header or the one that an `Open` has adopted since, and the
header of a call that was interrupted after that. -/
structure World where
  pager : FilePager
  up : Bool
  completed : PagerHeader
  current : PagerHeader
  interrupted : Option PagerHeader

/-- The pager before a call, with its count of free pages and what becomes of the file operations. -/
def FilePager.calling (p : FilePager) (freeCount : UInt64) (script : List Outcome) : FilePager :=
  { p with freeCount := freeCount, files := { p.files with script := script } }

/-- The crash comes at the operation after the first `k`. -/
def crashAt (k : ℕ) : List Outcome := List.replicate k .ok++[.crash]

/-- After the crash the file has the pages that were durable. -/
def FilePager.crashed (p : FilePager) (durable : ℕ → Bytes) : FilePager :=
  { p with files := { p.files with durable := durable, unsynced := [] } }

/-- Header writes, restarts and crashes, in any order. -/
inductive Reaches : World → Prop
  | created {p p' : FilePager} (hp : p.files.unsynced = [])
      (hw : writeHeader 2 (.ofNat freeListSentinel) (p.calling 0 []) = (.ok (),p')) :
      Reaches ⟨p',true,header 2 (.ofNat freeListSentinel) 0,header 2 (.ofNat freeListSentinel) 0,none⟩
  | write {w : World} {p' : FilePager} {c l n : UInt64} (h : Reaches w) (hup : w.up = true)
      (hw : writeHeader c l (w.pager.calling n []) = (.ok (),p')) :
        Reaches ⟨p',true,header c l n,header c l n,none⟩
  | crashWrite {w : World} {p' : FilePager} {c l n : UInt64}
      {d : ℕ → Bytes} (k : ℕ) (h : Reaches w) (hup : w.up = true)
      (hw : writeHeader c l (w.pager.calling n (crashAt k)) = (.error .crash,p'))
        (hd : Settles p'.files.unsynced p'.files.durable d) :
      Reaches ⟨p'.crashed d,false,w.completed,w.current,some (header c l n)⟩
  | stop {w : World} (h : Reaches w) (hup : w.up = true) : Reaches { w with up := false }
  | opens {w : World} {p' : FilePager} {h : PagerHeader} (hw : Reaches w) (hdown : w.up = false)
      (hr : readHeader (w.pager.calling 0 []) = (.ok h,p')) : Reaches ⟨p',true,w.completed,h,none⟩
  | crashOpen {w : World} {p' : FilePager} {d : ℕ → Bytes} (k : ℕ) (h : Reaches w) (hdown : w.up = false)
      (hr : readHeader (w.pager.calling 0 (crashAt k)) = (.error .crash,p'))
        (hd : Settles p'.files.unsynced p'.files.durable d) :
      Reaches { w with pager := p'.crashed d }

def Found (d : ℕ → Bytes) (h : PagerHeader) : Prop :=
  decodeHeader (d 0) = .ok h ∨ ¬(decodeHeader (d 0)).isOk ∧ decodeHeader (d 1) = .ok h

section Runs
variable {p p' : FilePager} {c l n : UInt64} {d : ℕ → Bytes} {h : PagerHeader} {script : List Outcome}

lemma writeHeader_runs (p : FilePager) (c l n : UInt64) :
    let q := p.calling n []
    let page := encodeHeader (header c l n)
    writeHeader c l q = (.ok (),{ q with files := ((q.files.write 1 page).synced.write 0 page).synced }) ∧
      writeHeader c l (p.calling n (crashAt 0)) = (.error .crash,q) ∧
      writeHeader c l (p.calling n (crashAt 1)) = (.error .crash,{ q with
        files := q.files.write 1 page }) ∧
      writeHeader c l (p.calling n (crashAt 2)) =
        (.error .crash,{ q with files := (q.files.write 1 page).synced }) ∧
      writeHeader c l (p.calling n (crashAt 3)) =
        (.error .crash,{ q with files := (q.files.write 1 page).synced.write 0 page }) ∧
      ∀ k, (writeHeader c l (p.calling n (crashAt (k+4)))).1 = .ok () :=
  ⟨rfl,rfl,rfl,rfl,rfl,fun _ => rfl⟩

lemma repairPrimary_runs (p : FilePager) (n : UInt64) (buf : Bytes) :
    let q := p.calling n []
    repairPrimary buf q = (.ok (),{ q with files := (q.files.write 0 buf).synced }) ∧
      repairPrimary buf (p.calling n (crashAt 0)) = (.error .crash,q) ∧
      repairPrimary buf (p.calling n (crashAt 1)) =
        (.error .crash,{ q with files := q.files.write 0 buf }) ∧
      ∀ k, (repairPrimary buf (p.calling n (crashAt (k+2)))).1 = .ok () :=
  ⟨rfl,rfl,rfl,fun _ => rfl⟩

lemma writeHeader_ok (hw : writeHeader c l (p.calling n []) = (.ok (),p')) :
    p'.files.unsynced = [] ∧ 2*pageSize ≤ p'.files.size ∧
      decodeHeader (p'.files.durable 0) = .ok (header c l n) := by
  cases (writeHeader_runs p c l n).1.symm.trans hw
  refine ⟨rfl,?_,?_⟩
  · exact le_max_of_le_left (le_max_right ..)
  · have hview : (((((p.calling n []).files.write 1 (encodeHeader (header c l n))).synced.write 0
      (encodeHeader (header c l n))).synced).durable 0) =
        encodeHeader (header c l n) := by simp [Files.synced,Files.view,Files.write]
    exact hview ▸ decodeHeader_encode c l n

lemma Settles.one {k : ℕ} {b : Bytes} {d d' : ℕ → Bytes} (hs : Settles [(k,b)] d d') :
    (∀ i, i≠k → d' i = d i) ∧ (d' k = b ∨ d' k = d k ∨ ¬(decodeHeader (d' k)).isOk) := by
  cases hs with
  | kept h =>
    cases h
    exact ⟨fun i hi => Function.update_of_ne hi ..,.inl (Function.update_self ..)⟩
  | lost h =>
    cases h
    exact ⟨fun _ _ => rfl,.inr (.inl rfl)⟩
  | torn t ht h =>
    cases h
    exact ⟨fun i hi => Function.update_of_ne hi ..,.inr (.inr (by rwa [Function.update_self]))⟩

lemma writeHeader_crash {k : ℕ} (hp : p.files.unsynced = [])
    (hw : writeHeader c l (p.calling n (crashAt k)) = (.error .crash,p'))
    (hd : Settles p'.files.unsynced p'.files.durable d) : p.files.size ≤ p'.files.size ∧
      (d 0 = p.files.durable 0 ∨ Found d (header c l n)) := by
  obtain ⟨-,h0,h1,h2,h3,h4⟩ := writeHeader_runs p c l n
  have hun : (p.calling n []).files.unsynced = [] := hp
  have hdur : (p.calling n []).files.durable = p.files.durable := rfl
  obtain _ | _ | _ | _ | k := k
  · cases h0.symm.trans hw
    rw [hun] at hd
    cases hd
    exact ⟨le_rfl,.inl rfl⟩
  · cases h1.symm.trans hw
    simp only [Files.write,hun,List.nil_append] at hd
    exact ⟨le_max_left ..,.inl (hd.one.1 0 (by decide))⟩
  · cases h2.symm.trans hw
    refine ⟨le_max_left ..,.inl ?_⟩
    simp only [Files.synced,Files.view,Files.write,hun,List.nil_append,List.foldl_cons,
      List.foldl_nil] at hd
    cases hd
    exact Function.update_of_ne (by decide) ..
  · cases h3.symm.trans hw
    refine ⟨(le_max_left ..).trans (le_max_left ..),?_⟩
    simp only [Files.synced,Files.view,Files.write,hun,List.nil_append,List.foldl_cons,
      List.foldl_nil] at hd
    obtain ⟨hother,hkept | hlost | htorn⟩ := hd.one
    · exact .inr (.inl (hkept ▸ decodeHeader_encode c l n))
    · exact .inl (hlost.trans (Function.update_of_ne (by decide) ..))
    · refine .inr (.inr ⟨htorn,?_⟩)
      rw [hother 1 (by decide),Function.update_self]
      exact decodeHeader_encode c l n
  · have hok := h4 k
    rw [hw] at hok
    cases hok

lemma readAt_ok {s : FilePager} {k : ℕ} (hs : s.files.script.headD .ok = .ok) (hplace : place k = some k)
    (hk : (k+1)*pageSize ≤ s.files.size) :
    readAt k s = (.ok (s.files.view k),
      { s with files := { s.files with script := s.files.script.tail } }) := by
  rw [readAt,fileOp,hs]
  simp only [hplace]
  rw [if_pos hk]
  rfl

lemma readAt_calling {k : ℕ} (hk : (k+1)*pageSize ≤ p.files.size) (hsmall : k < 2)
    (hs : script.headD .ok = .ok) :
    readAt k (p.calling n script) = (.ok (p.files.view k),p.calling n script.tail) := by
  have hplace : place k = some k := by
    unfold place
    rw [Nat.mod_eq_of_lt (by omega),if_pos (by omega)]
  exact readAt_ok (s := p.calling n script) hs hplace hk

lemma attempt_primary (hsize : 2*pageSize ≤ p.files.size) (hs : script.headD .ok = .ok) :
    attempt (readAt headerPageID) (p.calling n script) =
      (.ok (.ok (p.files.view 0)),p.calling n script.tail) := by
  rw [attempt,headerPageID,readAt_calling (by omega) (by decide) hs]

lemma readHeader_primary (hsize : 2*pageSize ≤ p.files.size) (hs : script.headD .ok = .ok)
    (h0 : decodeHeader (p.files.view 0) = .ok h) :
    readHeader (p.calling n script) = (.ok h,p.calling n script.tail) := by
  rw [readHeader,Prog.bind_ok (attempt_primary hsize hs)]
  simp only [Except.bind,h0]
  rfl

lemma readHeader_mirror (hsize : 2*pageSize ≤ p.files.size) (hs : script.headD .ok = .ok)
    (h0 : ¬(decodeHeader (p.files.view 0)).isOk) :
    readHeader (p.calling n script) = readMirror (p.calling n script.tail) := by
  rw [readHeader,Prog.bind_ok (attempt_primary hsize hs)]
  cases hbad : decodeHeader (p.files.view 0) with
  | ok h => simp [hbad,Except.isOk,Except.toBool] at h0
  | error e => simp only [Except.bind,hbad]

lemma readMirror_eq (hsize : 2*pageSize ≤ p.files.size) (hs : script.headD .ok = .ok)
    (h1 : decodeHeader (p.files.view 1) = .ok h) :
    readMirror (p.calling n script) = (repairPrimary (p.files.view 1) >>= fun _ =>
      pure h) (p.calling n script.tail) := by
  have hcodec : codec (decodeHeader (p.files.view 1)) (p.calling n script.tail) =
    (.ok h,p.calling n script.tail) := by
    rw [h1]
    rfl
  exact (Prog.bind_ok (Prog.handle_ok (readAt_calling hsize (by decide) hs))).trans
    (Prog.bind_ok (Prog.handle_ok hcodec))

lemma readHeader_ok (hun : p.files.unsynced = []) (hsize : 2*pageSize ≤ p.files.size)
    (hfound : Found p.files.durable h) :
    ∃ q, readHeader (p.calling n []) = (.ok h,q) ∧ q.files.unsynced = [] ∧ 2*pageSize ≤ q.files.size ∧
      decodeHeader (q.files.durable 0) = .ok h := by
  have hview : p.files.view = p.files.durable := by simp [Files.view,hun]
  rw [← hview] at hfound
  obtain h0 | ⟨h0,h1⟩ := hfound
  · exact ⟨_,readHeader_primary hsize rfl h0,hun,hsize,by rw [← h0,hview]; rfl⟩
  · refine ⟨_,((readHeader_mirror hsize rfl h0).trans (readMirror_eq hsize rfl h1)).trans
      (Prog.bind_ok (repairPrimary_runs p n _).1),rfl,
      le_max_of_le_left hsize,?_⟩
    rw [← h1]
    simp [Files.synced,Files.view,Files.write]

lemma readHeader_crash {k : ℕ} (hun : p.files.unsynced = []) (hsize : 2*pageSize ≤ p.files.size)
    (hfound : Found p.files.durable h)
    (hr : readHeader (p.calling n (crashAt k)) = (.error .crash,p'))
    (hd : Settles p'.files.unsynced p'.files.durable d) :
    2*pageSize ≤ p'.files.size ∧ Found d h := by
  have hview : p.files.view = p.files.durable := by simp [Files.view,hun]
  have hdone : p' = p.calling n [] → 2*pageSize ≤ p'.files.size ∧ Found d h := by
    rintro rfl
    rw [show (p.calling n []).files.unsynced = [] from hun] at hd
    cases hd
    exact ⟨hsize,hfound⟩
  obtain _ | k := k
  · exact hdone (Prod.mk.inj hr).2.symm
  obtain h0 | ⟨h0,h1⟩ := hview ▸ hfound
  · cases (readHeader_primary hsize rfl h0).symm.trans hr
  rw [readHeader_mirror hsize rfl h0] at hr
  obtain _ | k := k
  · exact hdone (Prod.mk.inj hr).2.symm
  obtain ⟨-,hr0,hr1,hr2⟩ := repairPrimary_runs p n (p.files.view 1)
  rw [show (crashAt (k+1+1)).tail = .ok::crashAt k from rfl,readMirror_eq hsize rfl h1] at hr
  obtain _ | _ | k := k
  · exact hdone (Prod.mk.inj ((Prog.bind_error hr0).symm.trans hr)).2.symm
  · cases (Prog.bind_error hr1).symm.trans hr
    simp only [Files.write,show (p.calling n []).files.unsynced = [] from hun,List.nil_append] at hd
    obtain ⟨hother,hprimary⟩ := hd.one
    have hmirror : decodeHeader (d 1) = .ok h := by
      rw [hother 1 (by decide),← h1,hview]
      rfl
    refine ⟨le_max_of_le_left hsize,?_⟩
    obtain hwritten | hlost | htorn := hprimary
    · exact .inl (hwritten ▸ h1)
    · refine .inr ⟨?_,hmirror⟩
      rwa [hlost,show (p.calling n []).files.durable = p.files.view from hview.symm]
    · exact .inr ⟨htorn,hmirror⟩
  · cases (Prog.bind_ok (Prog.run_ok (hr2 k))).symm.trans hr

end Runs

/-- No process has unsynced writes between its calls, and it holds the header that is in the primary. -/
structure Sound (w : World) : Prop where
  synced : w.pager.files.unsynced = []
  size : 2*pageSize ≤ w.pager.files.size
  held : w.up = true → decodeHeader (w.pager.files.durable 0) = .ok w.current
  found : ∃ h, Found w.pager.files.durable h ∧ (h = w.current ∨ w.interrupted = some h)

lemma Reaches.sound {w : World} (hw : Reaches w) : Sound w := by
  induction hw with
  | created hp hw =>
    obtain ⟨hun,hsize,hdec⟩ := writeHeader_ok hw
    exact ⟨hun,hsize,fun _ => hdec,_,.inl hdec,.inl rfl⟩
  | write h hup hw ih =>
    obtain ⟨hun,hsize,hdec⟩ := writeHeader_ok hw
    exact ⟨hun,hsize,fun _ => hdec,_,.inl hdec,.inl rfl⟩
  | crashWrite k h hup hw hd ih =>
    obtain ⟨hsize,hsame | hnew⟩ := writeHeader_crash ih.synced hw hd
    · exact ⟨rfl,ih.size.trans hsize,nofun,_,
        .inl ((congrArg decodeHeader hsame).trans (ih.held hup)),.inl rfl⟩
    · exact ⟨rfl,ih.size.trans hsize,nofun,_,hnew,.inr rfl⟩
  | stop h hup ih => exact ⟨ih.synced,ih.size,nofun,ih.found⟩
  | opens hw hdown hr ih =>
    obtain ⟨h,hfound,-⟩ := ih.found
    obtain ⟨q,hq,hun,hsize,hdec⟩ := readHeader_ok (n := 0) ih.synced ih.size hfound
    cases hq.symm.trans hr
    exact ⟨hun,hsize,fun _ => hdec,_,.inl hdec,.inl rfl⟩
  | crashOpen k h hdown hr hd ih =>
    obtain ⟨h,hfound,hwhich⟩ := ih.found
    obtain ⟨hsize,hfound⟩ := readHeader_crash ih.synced ih.size hfound hr hd
    exact ⟨rfl,hsize,fun hup => absurd (hup.symm.trans hdown) (by decide),h,hfound,hwhich⟩

/-- However often the process is stopped, `Open` finds a header: the one that was current, or the
one of the call that was interrupted. -/
theorem open_finds_current {w : World} (hw : Reaches w) :
    ∃ h p', readHeader (w.pager.calling 0 []) = (.ok h,p') ∧ (h = w.current ∨ w.interrupted = some h) := by
  have hs := hw.sound
  obtain ⟨h,hfound,hwhich⟩ := hs.found
  obtain ⟨p',hr,-⟩ := readHeader_ok (n := 0) hs.synced hs.size hfound
  exact ⟨h,p',hr,hwhich⟩

/-- A pager on an empty file. -/
def fresh : FilePager :=
  ⟨⟨fun _ => [],[],0,[],[]⟩,.neverOpened,none,0,.ofNat freeListSentinel,0,[],false,0,0,[],0,id⟩

/-- The header of a new file, and two that calls then set out to write. -/
def firstHeader : PagerHeader := header 2 (.ofNat freeListSentinel) 0
def secondHeader : PagerHeader := header 3 (.ofNat freeListSentinel) 0
def thirdHeader : PagerHeader := header 4 (.ofNat freeListSentinel) 0

/-- The second header is on the mirror when the process stops, and the primary is torn. -/
lemma torn_reaches : ∃ p : FilePager, Reaches ⟨p,false,firstHeader,firstHeader,some secondHeader⟩ ∧
    Found p.files.durable secondHeader := by
  have htorn : ¬(decodeHeader (List.replicate pageSize 0)).isOk := by decide +kernel
  have hcrash := Reaches.crashWrite (c := 3) (l := .ofNat freeListSentinel) (n := 0) 3
    (.created (p := fresh) rfl rfl) rfl rfl (.torn (List.replicate pageSize 0) htorn (.nil _))
  exact ⟨_,hcrash,.inr ⟨htorn,decodeHeader_encode ..⟩⟩

theorem open_finds_after_crash : ∃ p : FilePager,
    Reaches ⟨p,false,firstHeader,firstHeader,some secondHeader⟩ ∧
    ∃ h p', readHeader (p.calling 0 []) = (.ok h,p') ∧ (h = firstHeader ∨ some secondHeader = some h) := by
  obtain ⟨p,hp,-⟩ := torn_reaches
  exact ⟨p,hp,open_finds_current hp⟩

/-- The primary is torn under a second header, `Open` adopts that from the mirror, and a third is
interrupted before it is on disk: the next `Open` adopts the second, which was neither completed nor
interrupted last. -/
theorem open_adopts_interrupted_before : ∃ w h p', Reaches w ∧ w.up = false ∧
    readHeader (w.pager.calling 0 []) = (.ok h,p') ∧ h≠w.completed ∧ w.interrupted≠some h := by
  obtain ⟨p,hcrash,hfound⟩ := torn_reaches
  obtain ⟨q,hq,hun,hsize,hdec⟩ :=
    readHeader_ok (n := 0) hcrash.sound.synced hcrash.sound.size hfound
  have hlost : Settles (q.calling 0 []).files.unsynced (q.calling 0 []).files.durable
      q.files.durable := by
    rw [show (q.calling 0 []).files.unsynced = [] from hun]
    exact .nil _
  have hw := Reaches.crashWrite (c := 4) (l := .ofNat freeListSentinel) (n := 0) 0
    (hcrash.opens rfl hq) rfl rfl hlost
  obtain ⟨p',hp',-⟩ :=
    readHeader_ok (n := 0) (h := secondHeader) hw.sound.synced hw.sound.size (.inl hdec)
  have hfirst : secondHeader≠firstHeader := by decide
  have hthird : some thirdHeader≠some secondHeader := by decide
  exact ⟨_,secondHeader,p',hw,rfl,hp',hfirst,hthird⟩

end Plomvix.Pager
