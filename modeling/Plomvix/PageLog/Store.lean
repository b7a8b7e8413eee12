import Plomvix.Pager.PageStore
import Plomvix.Lib.Prog
import Plomvix.Lib.RecordPage

/-! The append-only store of the metrics engine and of the logs engine. Both keep the page that is
being written in memory, write it as a whole after every record, and begin a new page when a record
has no room. -/
namespace Plomvix.PageLog
open Lib Pager RecordPage

inductive Err
  | notOpen | alreadyOpen | recordTooLarge
  | pager (e : Pager.Err)
  /-- `%w` after a text with page numbers. -/
  | wrap (text : String) (ids : List ℕ) (e : Err)
  deriving DecidableEq

/-- Why a call does not return its value: an error, a panic, or the end of the process. -/
inductive Fail
  | err (e : Err)
  | panic
  | crash
  deriving DecidableEq

/-- What becomes of a pager call; it has its effect only in the first case, and a crash comes before it. -/
inductive Outcome
  | ok | fail | crash
  deriving DecidableEq

/-- The pages are those of the file. The script says what becomes of the next pager calls. -/
structure Store (ι : Type) where
  pages : PageStore
  script : List Outcome
  currentPageID : ℕ
  currentBody : Bytes
  opened : Bool
  index : ι

abbrev Cmd (ι : Type) := Prog (Store ι) Fail

/-- Where a record is. -/
structure Place where
  pageID : ℕ
  offset : ℕ
  number : ℕ
  deriving DecidableEq

/-- In what the two stores differ: their name, their records, how a record is indexed, and which
pages a scan may skip. -/
structure Kind (α ι : Type) where
  name : String
  codec : Codec α
  serializedSize : α → ℕ
  serializedSize_eq : ∀ a, serializedSize a = (codec.encode a).length
  fits : ∀ a, serializedSize a ≤ dataPageBodySize-headerSize → codec.Fits a
  /-- `none` is a panic. -/
  insert : α → Place → ι → Option ι
  skips : Pager.Err → Bool

variable {α β ι : Type}

def Store.next (s : Store ι) : Store ι := { s with script := s.script.tail }

/-- One call to the pager. -/
def call (op : PageStore → Except Pager.Err β × PageStore) : Cmd ι β := fun s =>
  match s.script.headD .ok with
  | .crash => (.error .crash,s.next)
  | .fail => (.error (.err (.pager .io)),s.next)
  | .ok => ((op s.pages).1.mapError fun e => .err (.pager e),{ s.next with pages := (op s.pages).2 })

def wrap (text : String) (ids : List ℕ) (x : Cmd ι β) : Cmd ι β := x.handle fun
  | .err e => .stop (.err (.wrap text ids e))
  | e => .stop e

def newStoreWithIndex (pages : PageStore) (script : List Outcome) (index : ι) : Store ι :=
  ⟨pages,script,0,[],false,index⟩

def flushPage : Cmd ι Unit := do
  let s ← Prog.get
  call fun p => p.writePage s.currentPageID s.currentBody

/-- A page without records, in memory only. -/
def startPage (id : ℕ) : Cmd ι Unit :=
  .modify fun s => { s with currentPageID := id, currentBody := writeHeader 0 headerSize zeroBody }

def pageCount (k : Kind α ι) : Cmd ι ℕ :=
  wrap (k.name++": page count") [] (call fun p => (.ok p.pageCount,p))

/-- The last of `n` pages is the one that is written next; its body is taken as it is. -/
def loadPage (k : Kind α ι) (n : ℕ) : Cmd ι Unit :=
  if n ≤ firstDataPageID then do
    let id ← wrap (k.name++": allocate first page") [] (call (·.allocatePage))
    startPage id
    flushPage
  else do
    let body ← wrap (k.name++": read last page") [n-1] (call (·.readPage (n-1)))
    Prog.modify fun s => { s with currentPageID := n-1, currentBody := body }

def openStore (k : Kind α ι) : Cmd ι Unit := do
  let s ← Prog.get
  if s.opened then Prog.stop (.err .alreadyOpen)
  else do
    wrap (k.name++": pager open") [] (call fun p => (.ok (),p))
    let n ← pageCount k
    loadPage k n
    Prog.modify fun s => { s with opened := true }

def close : Cmd ι Unit := do
  let s ← Prog.get
  if ¬s.opened then Prog.stop (.err .notOpen)
  else do
    flushPage
    Prog.modify fun s => { s with opened := false }
    call fun p => (.ok (),p)

/-- The number of records and the next offset, on a new page if the record has no room. -/
def makeRoom (k : Kind α ι) (a : α) : Cmd ι (ℕ × ℕ) := do
  let s ← Prog.get
  if dataPageBodySize < next s.currentBody+k.serializedSize a then do
    flushPage
    let id ← wrap (k.name++": allocate new page") [] (call (·.allocatePage))
    startPage id
    pure (0,headerSize)
  else pure (num s.currentBody,next s.currentBody)

def putRecord (k : Kind α ι) (a : α) (at' : ℕ × ℕ) : Cmd ι Unit := do
  Prog.modify fun s => { s with currentBody := add k.codec a at'.1 at'.2 s.currentBody }
  let s ← Prog.get
  match k.insert a ⟨s.currentPageID,at'.2,at'.1⟩ s.index with
  | none => Prog.stop .panic
  | some index => Prog.modify fun s => { s with index := index }

def append (k : Kind α ι) (a : α) : Cmd ι Unit := do
  let s ← Prog.get
  if ¬s.opened then Prog.stop (.err .notOpen)
  else if dataPageBodySize-headerSize < k.serializedSize a then Prog.stop (.err .recordTooLarge)
  else do
    let at' ← makeRoom k a
    putRecord k a at'
    flushPage

/-- The records that are kept; `none` is a panic of the test. -/
def select (keep : α → Option Bool) : List α → Option (List α)
  | [] => some []
  | a::l => do
    let b ← keep a
    let kept ← select keep l
    pure (if b then a::kept else kept)

def readRecords (k : Kind α ι) (id : ℕ) : Cmd ι (List α) :=
  (do pure (decode k.codec (← call (·.readPage id)))).handle fun
    | .err (.pager e) =>
      if k.skips e then pure [] else .stop (.err (.wrap (k.name++": read page") [id] (.pager e)))
    | e => .stop e

def scanPages (k : Kind α ι) (keep : α → Option Bool) : List ℕ → Cmd ι (List α)
  | [] => pure []
  | id::ids => do
    let l ← readRecords k id
    match select keep l with
    | none => Prog.stop .panic
    | some kept => do
      let rest ← scanPages k keep ids
      pure (kept++rest)

/-- All pages are read in turn. -/
def scan (k : Kind α ι) (keep : α → Option Bool) : Cmd ι (List α) := do
  let s ← Prog.get
  if ¬s.opened then Prog.stop (.err .notOpen)
  else do
    let n ← pageCount k
    scanPages k keep (List.range' firstDataPageID (n-firstDataPageID))

end Plomvix.PageLog
