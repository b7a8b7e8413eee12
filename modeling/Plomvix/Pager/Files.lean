import Plomvix.Pager.WAL
import Plomvix.Lib.Prog

/-! The pager over its two files, as `pager.go` has it. A script says what becomes of the next file
operations. The page numbers in the texts of errors are left out. -/
namespace Plomvix.Pager
open Lib

/-- A write that fails may leave anything in its place; a short write is one that fails. -/
inductive Outcome
  | ok
  | fail (left : Option Bytes)
  | crash
  deriving DecidableEq

/-- Why a call does not return its value. -/
inductive Failure
  | err (e : Err)
  | crash
  deriving DecidableEq

/-- The main file by pages: what is durable, and the writes since the last sync. -/
structure Files where
  durable : ℕ → Bytes
  unsynced : List (ℕ × Bytes)
  size : ℕ
  wal : Bytes
  script : List Outcome

namespace Files

/-- What a read sees before a sync. -/
def view (f : Files) : ℕ → Bytes := f.unsynced.foldl (fun d w => Function.update d w.1 w.2) f.durable

def write (f : Files) (k : ℕ) (b : Bytes) : Files :=
  { f with unsynced := f.unsynced++[(k,b)], size := max f.size ((k+1)*pageSize) }

def synced (f : Files) : Files := { f with durable := f.view, unsynced := [] }

def writeWAL (f : Files) (off : ℕ) (b : Bytes) : Files :=
  { f with wal := padTo off (f.wal.take off)++b++f.wal.drop (off+b.length) }

end Files

inductive StoreState
  | neverOpened
  | opened
  | closed
  deriving DecidableEq

/-- The pager of the source, over its two files. -/
structure FilePager where
  files : Files
  state : StoreState
  openErr : Option Err
  pageCount : UInt64
  freeListHead : UInt64
  freeCount : UInt64
  freeSet : List ℕ
  inTxn : Bool
  nextTxnID : UInt64
  currentTxn : UInt64
  txnBuffer : List (ℕ × Bytes)
  walSize : ℕ
  /-- The order in which a map is iterated over. -/
  order : List (ℕ × Bytes) → List (ℕ × Bytes)

abbrev Cmd := Prog FilePager Failure

variable {α : Type}

section Operations

def fileOp (onOk : Files → Except Err α × Files) (onFail : Option Bytes → Files → Files) : Cmd α :=
  fun s =>
  let f := { s.files with script := s.files.script.tail }
  match s.files.script.headD .ok with
  | .ok => ((onOk f).1.mapError .err,{ s with files := (onOk f).2 })
  | .fail left => (.error (.err .io),{ s with files := onFail left f })
  | .crash => (.error .crash,{ s with files := f })

/-- The place of a page: its offset `int64(pageID)*PageSize` wraps around, and a negative one is
refused. -/
def place (pageID : ℕ) : Option ℕ := if pageID%2^52 < 2^51 then some (pageID%2^52) else none

def readAt (pageID : ℕ) : Cmd Bytes := fileOp (fun f =>
  match place pageID with
  | none => (.error .io,f)
  | some k => if (k+1)*pageSize ≤ f.size then (.ok (f.view k),f) else (.error .eof,f)) fun _ f => f

def writeAt (pageID : ℕ) (b : Bytes) : Cmd Unit := fileOp (fun f =>
  match place pageID with
  | none => (.error .io,f)
  | some k => (.ok (),f.write k b)) fun left f =>
    match place pageID,left with
    | some k,some b => f.write k b
    | _,_ => f

def sync : Cmd Unit := fileOp (fun f => (.ok (),f.synced)) fun _ f => f
def stat : Cmd ℕ := fileOp (fun f => (.ok f.size,f)) fun _ f => f
def statWAL : Cmd ℕ := fileOp (fun f => (.ok f.wal.length,f)) fun _ f => f
def readWAL (n : ℕ) : Cmd Bytes := fileOp (fun f => if n ≤ f.wal.length then
      (.ok (f.wal.take n),f) else (.error .eof,f)) fun _ f => f
def writeWAL (off : ℕ) (b : Bytes) : Cmd Unit := fileOp (fun f => (.ok (),f.writeWAL off b)) fun left f =>
  match left with
  | some b => f.writeWAL off b
  | none => f
def syncWAL : Cmd Unit := fileOp (fun f => (.ok (),f)) fun _ f => f
def truncateWAL : Cmd Unit := fileOp (fun f => (.ok (),{ f with wal := [] })) fun _ f => f

def fail (e : Err) : Cmd α := .stop (.err e)

def wrap (text : String) (x : Cmd α) : Cmd α := x.handle fun
  | .err e => fail (.wrap text e)
  | .crash => .stop .crash

/-- The error of an operation is looked at and not returned. -/
def attempt (x : Cmd α) : Cmd (Except Err α) := fun s =>
  match x s with
  | (.ok a,s) => (.ok (.ok a),s)
  | (.error (.err e),s) => (.ok (.error e),s)
  | (.error .crash,s) => (.error .crash,s)

def codec (x : Except Err α) : Cmd α := .lift (x.mapError .err)

end Operations

section Opening

def readBodyUnchecked (pageID : ℕ) : Cmd Bytes := do
  let buf ← wrap "pager: read page" (readAt pageID)
  codec (decodeDataPage buf)

def writeBodyUnchecked (pageID : ℕ) (body : Bytes) : Cmd Unit := do
  let encoded ← codec (encodeDataPage body)
  wrap "pager: write page" (writeAt pageID encoded)
  wrap "pager: fsync page" sync

/-- The header of a pager with these counts. -/
def header (pageCount freeListHead freeCount : UInt64) : PagerHeader :=
  ⟨magicNumber,formatVersion,pageSize,pageCount.toNat,freeListHead.toNat,freeCount.toNat⟩

def writeHeader (pageCount freeListHead : UInt64) : Cmd Unit := do
  let s ← Prog.get
  let page := encodeHeader (header pageCount freeListHead s.freeCount)
  wrap "pager: write mirror header" (writeAt mirrorHeaderPageID page)
  wrap "pager: fsync mirror header" sync
  wrap "pager: write primary header" (writeAt headerPageID page)
  wrap "pager: fsync primary header" sync

/-- The mirror is written to the primary; that may fail. -/
def repairPrimary (headerBuf : Bytes) : Cmd Unit := do
  let written ← attempt (writeAt headerPageID headerBuf)
  if written.isOk then let _ ← attempt sync

def readMirror : Cmd PagerHeader := do
  let headerBuf ← wrap "pager: read mirror header" (readAt mirrorHeaderPageID)
  let h ← wrap "pager: mirror header also invalid" (codec (decodeHeader headerBuf))
  repairPrimary headerBuf
  pure h

/-- The part of `Open` that finds the header. -/
def readHeader : Cmd PagerHeader := do
  let primary ← attempt (readAt headerPageID)
  match primary.bind decodeHeader with
  | .ok h => pure h
  | .error _ => readMirror

/-- The walk over the free list; no page is met twice, so there is enough fuel. -/
def walkFreeList (pageCount : ℕ) : ℕ → ℕ → List ℕ → Cmd (List ℕ)
  | 0,_,_ => fail (.wrap "pager: free-list" .freeListCorrupt)
  | n+1,curr,freeSet =>
    if curr = freeListSentinel then pure freeSet
    else if curr = 0 ∨ pageCount ≤ curr ∨ curr ∈ freeSet then
      fail (.wrap "pager: free-list" .freeListCorrupt)
    else do
      let body ← wrap "pager: free-list walk page" (readBodyUnchecked curr)
      let next ← wrap "pager: free-list walk page" (codec (decodeFreeListPointer body))
      walkFreeList pageCount n next (curr::freeSet)

/-- The records of each transaction, in the order of their first records. -/
def groups (records : List WALRecord) : List (List WALRecord) :=
  (records.map (·.txnID)).eraseDups.map fun id => records.filter (·.txnID = id)

/-- The last write to a page wins. -/
def applied : List WALRecord → List (ℕ × Bytes)
  | [] => []
  | r::rs =>
    if r.pageID = walEOTPageID ∨ (applied rs).any (·.1 = r.pageID) then applied rs else
      (r.pageID,r.body)::applied rs

def applyPages : List (ℕ × Bytes) → Cmd Unit
  | [] => pure ()
  | (pageID,body)::rest => do
    let encoded ← codec (encodeDataPage body)
    wrap "pager: replay write page" (writeAt pageID encoded)
    applyPages rest

def applyGroups : List (List WALRecord) → Cmd Unit
  | [] => pure ()
  | group::rest => do
    if group.any (isEOTMarker ·.pageID 0) then
      let s ← Prog.get
      applyPages (s.order (applied group))
      wrap "pager: replay fsync main file" sync
    applyGroups rest

def replayWAL : Cmd Unit := do
  let s ← Prog.get
  if s.walSize = 0 then pure ()
  else do
    let walData ← wrap "pager: read WAL for replay" (readWAL s.walSize)
    match readRecords walData with
    | (records,stop) =>
      if stop = none ∨ stop = some .eof then
        applyGroups (groups records)
        wrap "pager: truncate WAL" truncateWAL
        Prog.modify fun s => { s with walSize := 0 }
      else fail (stop.getD .walCorrupt)

def openListed (h : PagerHeader) (freeSet : List ℕ) : Cmd Unit := do
  Prog.modify fun s => { s with
    state := .opened, pageCount := .ofNat h.pageCount, freeListHead := .ofNat h.freeListHead,
                                freeCount := .ofNat h.freePageCount, freeSet := freeSet }
  if freeSet.length≠h.freePageCount then fail (.wrap "pager: free-list" .freeListCorrupt)
  else do
    let walSize ← wrap "pager: stat WAL file" statWAL
    Prog.modify fun s => { s with walSize := walSize }
    replayWAL

def openFile : Cmd Unit := do
  let size ← wrap "pager: stat main file" stat
  if size = 0 then do
    writeHeader 2 (.ofNat freeListSentinel)
    Prog.modify fun s => { s with
      state := .opened, pageCount := 2, freeListHead := .ofNat freeListSentinel, freeCount := 0 }
  else do
    let h ← readHeader
    let freeSet ← walkFreeList h.pageCount (h.pageCount+1) h.freeListHead []
    openListed h freeSet

def openPager (ctx : Option Err) : Cmd Unit := do
  let s ← Prog.get
  match ctx.or s.openErr with
  | some e => fail e
  | none =>
    if s.state = .opened then fail .alreadyOpen
    else if s.state≠.neverOpened then fail .closed
    else openFile

end Opening

end Plomvix.Pager
