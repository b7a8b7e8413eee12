import Plomvix.Lib.Prog
import Plomvix.KV.Node
import Plomvix.Pager.PageStore

/-! The B+ tree store of `btree.go` over a page store. Every pager call can be made to fail
without effect by a fault pattern; a cancelled context is a pattern that fails every later
call. Loops over pages carry fuel one beyond the number of pages, which a walk can only
use up by coming back to a page it has seen. -/
namespace Plomvix.KV
open Lib Pager

/-- Why a call stops: it returns an error, it panics, or it never returns. -/
inductive Fail
  | err (e : Err) | panic | diverge
  deriving DecidableEq, Repr

/-- The calls of the pager that may fail. -/
inductive PagerCall
  | alloc | read | write | free | begin | commit | rollback | count
  deriving DecidableEq, Repr

/-- The store's fields, the pager below it, and which of the pager's calls are to fail:
`faults c n` is about the call of kind `c` that comes after `n` others of its kind. -/
structure Store where
  pages : PageStore
  faults : PagerCall → ℕ → Bool
  seen : PagerCall → ℕ
  rootPageID : ℕ
  isOpen : Bool
  closed : Bool

abbrev Cmd (α : Type) := Prog Store Fail α

abbrev Entry := Key × Bytes

def fail {α : Type} (e : Err) : Cmd α := Prog.stop (.err e)

def codec {α : Type} (x : Except Err α) : Cmd α := Prog.lift (x.mapError .err)

/-- Wrap the error of a call; a panic is not an error. -/
def wrap {α : Type} (text : String) (x : Cmd α) : Cmd α :=
  x.handle fun
    | .err e => fail (.wrap text e)
    | e => .stop e

/-- Run a call for its effect and its result, if it has one. -/
def attempt {α : Type} (x : Cmd α) : Cmd (Option α) :=
  Prog.handle (some <$> x) fun
    | .err _ => pure none
    | e => .stop e

def Store.tick (s : Store) (c : PagerCall) (n : ℕ) : Store :=
  { s with seen := Function.update s.seen c (s.seen c+n) }

/-- A call of the pager, unless a fault is due. -/
def call {α : Type} (c : PagerCall) (op : PageStore → Except Pager.Err α × PageStore) : Cmd α :=
  fun s =>
    if s.faults c (s.seen c) then (.error (.err (.pager .io)),s.tick c 1)
    else
      let r := op s.pages
      (r.1.mapError (fun e => .err (.pager e)),{ s.tick c 1 with pages := r.2 })

def pageCount : Cmd ℕ := call .count fun p => (.ok p.pageCount,p)
def allocatePage : Cmd ℕ := call .alloc PageStore.allocatePage
def readPage (id : ℕ) : Cmd Bytes := call .read fun p => p.readPage id
def writePage (id : ℕ) (body : Bytes) : Cmd Unit := call .write fun p => p.writePage id body
def freePage (id : ℕ) : Cmd Unit := call .free fun p => p.freePage id
def beginTx : Cmd Unit := call .begin PageStore.beginTx
def commitTx : Cmd Unit := call .commit PageStore.commitTx
def rollbackTx : Cmd Unit := call .rollback PageStore.rollbackTx

/-- The cleanup of a write transaction: roll back, ignoring how that went, and return the error. -/
def orRollback {α : Type} (x : Cmd α) : Cmd α :=
  x.handle fun
    | .err e => do
      let _ ← attempt rollbackTx
      fail e
    | e => .stop e

def setRoot (id : ℕ) : Cmd Unit := .modify fun s => { s with rootPageID := id }

/-- A longer walk visits a page twice. -/
def fuel : Cmd ℕ := do return (← Prog.get).pages.pageCount+1

/-- `newBtreeStore` over a pager. -/
def newBtreeStore (p : PageStore) (faults : PagerCall → ℕ → Bool) : Store :=
  ⟨p,faults,fun _ => 0,rootSentinel,false,false⟩

def checkOpen : Cmd Unit := do
  let s ← Prog.get
  if s.closed then fail .closed
  else if !s.isOpen then fail .notOpen

def openStore : Cmd Unit := do
  let s ← Prog.get
  if s.closed then fail .closed
  else if s.isOpen then pure ()
  else do
    let pc ← wrap "kv: page count" pageCount
    if pc = firstDataPageID then do
      let id ← wrap "kv: allocate meta page" allocatePage
      if id ≠ metaPageID then
        fail (.wrap s!"expected meta page at {metaPageID}, got {id}" .treeCorrupt)
      else do
        wrap "kv: begin tx for meta init" beginTx
        orRollback (wrap "kv: write meta page" (writePage metaPageID (encodeMetaPage rootSentinel)))
        wrap "kv: commit meta init" commitTx
    else do
      let body ← wrap "kv: read meta page" (readPage metaPageID)
      let rootID ← wrap "kv: decode meta page" (codec (decodeMetaPage body))
      setRoot rootID
    .modify fun s => { s with isOpen := true }

def close : Cmd Unit := do
  if (← Prog.get).closed then pure ()
  else .modify fun s => { s with isOpen := false, closed := true }

/-- The index of the child to follow: the first separator above `k`, or the last child. -/
def upperBoundIdx (childPtrs : List ℕ) (ikeys : List Key) (k : Key) : ℕ :=
  (ikeys.findIdx? (fun ik => k < ik)).getD (childPtrs.length-1)

/-- The chain loop of `readOverflowValue`, with the number of pages it may still read and
the bytes copied into the buffer so far. -/
def followChain (totalLen : ℕ) : ℕ → ℕ → Bytes → Cmd Bytes
  | n,pageID,buf =>
    if pageID = rootSentinel ∨ pageID = 0 then pure buf
    else match n with
      | 0 => fail (.wrap "overflow chain exceeds max length" .treeCorrupt)
      | n+1 => do
        let body ← wrap s!"kv: read overflow page {pageID}" (readPage pageID)
        let (nextPtr,chunk) ← codec (decodeOverflowPage body)
        followChain totalLen n nextPtr (buf++chunk.take (totalLen-buf.length))

def readOverflowValue (ref : LeafValueRef) : Cmd Bytes := do
  let buf ← followChain ref.totalLen maxOverflowChainLen ref.overflowPageID ref.inline
  let pos := buf.length
  let total := ref.totalLen
  if pos ≠ total then
    fail (.wrap s!"overflow chain length mismatch: got {pos}, want {total}" .treeCorrupt)
  else pure buf

def slotValue (ref : LeafValueRef) : Cmd Bytes :=
  if ref.hasOverflow then readOverflowValue ref else pure ref.inline

/-- A step of the path from the root, with the node as it was read. -/
structure PathEntry where
  pageID : ℕ
  childIdx : ℕ
  keys : List Key
  childPtrs : List ℕ

/-- The descent that the four operations share: read a page, act on a leaf, follow the child
that `pick` chooses from an inner node. The path is kept with the deepest entry first. -/
def walk {α : Type} (text : ℕ → String) (unknown : UInt8 → String) (pick : List ℕ → List Key → ℕ)
    (atLeaf : List PathEntry → ℕ → Bytes → Cmd α) : ℕ → ℕ → List PathEntry → Cmd α
  | 0,_,_ => .stop .diverge
  | n+1,pageID,path => do
    let body ← wrap (text pageID) (readPage pageID)
    if body.headD 0 = nodeTypeLeaf then atLeaf path pageID body
    else if body.headD 0 = nodeTypeInternal then do
      let (childPtrs,ikeys) ← codec (decodeInternalNode body)
      let childIdx := pick childPtrs ikeys
      walk text unknown pick atLeaf n (childPtrs.getD childIdx 0)
        (⟨pageID,childIdx,ikeys,childPtrs⟩::path)
    else fail (.wrap (unknown (body.headD 0)) .treeCorrupt)

def readText (pageID : ℕ) : String := s!"kv: read page {pageID}"

def searchLeaf (k : Key) (body : Bytes) : Cmd Bytes := do
  let (keys,refs,_) ← codec (decodeLeafNodeRefs body)
  match (keys.zip refs).find? (fun e => e.1 = k) with
  | some e => slotValue e.2
  | none => fail .keyNotFound

def search (n pageID : ℕ) (k : Key) : Cmd Bytes :=
  walk readText
    (fun b => let hex := String.ofList (Nat.toDigits 16 b.toNat); s!"unknown node type 0x{hex}")
    (fun childPtrs ikeys => upperBoundIdx childPtrs ikeys k) (fun _ _ => searchLeaf k) n pageID []

def get (k : Key) : Cmd Bytes := do
  checkOpen
  let s ← Prog.get
  if s.rootPageID = rootSentinel then fail .keyNotFound
  else search (← fuel) s.rootPageID k

/-- Allocate up to `n` pages; the flag says whether all of them could be had. -/
def allocOverflow : ℕ → Cmd (List ℕ × Bool)
  | 0 => pure ([],true)
  | n+1 => do
    match ← attempt allocatePage with
    | none => pure ([],false)
    | some id =>
      let (ids,complete) ← allocOverflow n
      pure (id::ids,complete)

/-- The number of overflow pages for the part of `v` that the leaf slot does not hold. -/
def numOverflow (v : Bytes) : ℕ := (v.length-min 504 v.length+overflowChunkSize-1)/overflowChunkSize

/-- When an allocation fails, the pages obtained so far are returned with no packed value. -/
def prepareOverflow (v : Bytes) : Cmd (List ℕ × Bytes) := do
  let (ids,complete) ← allocOverflow (numOverflow v)
  if complete then pure (ids,beBytes 8 (ids.headD 0)++v) else pure (ids,[])

def writeChunks : List ℕ → Bytes → Cmd Unit
  | [],_ => pure ()
  | id::ids,remaining => do
    let body ← wrap "kv: encode overflow page"
      (codec (encodeOverflowPage (ids.headD rootSentinel) (remaining.take overflowChunkSize)))
    wrap s!"kv: write overflow page {id}" (writePage id body)
    writeChunks ids (remaining.drop overflowChunkSize)

def writeOverflowChain (overflowIDs : List ℕ) (v : Bytes) : Cmd Unit :=
  writeChunks overflowIDs (v.drop (min 504 v.length))

/-- The slice `packedVal[8:]`. -/
def dropPageID (packedVal : Bytes) : Cmd Bytes :=
  if packedVal.length < 8 then .stop .panic else pure (packedVal.drop 8)

def writeOverflowChainFull (overflowIDs : List ℕ) (packedVal : Bytes) : Cmd Unit :=
  if overflowIDs.length > 0 then do
    let v ← dropPageID packedVal
    orRollback (writeOverflowChain overflowIDs v)
  else pure ()

def setInEmpty (k : Key) (v : Bytes) : Cmd Unit := do
  let (overflowIDs,packedVal) ← if v.length > maxValSize then prepareOverflow v else pure ([],v)
  let leafID ← wrap "kv: allocate leaf" allocatePage
  wrap "kv: begin tx" beginTx
  if overflowIDs.length > 0 then orRollback (writeOverflowChain overflowIDs v) else pure ()
  let leafBody ← orRollback (codec (encodeLeafNode [k] [packedVal] rootSentinel))
  orRollback (wrap "kv: write leaf" (writePage leafID leafBody))
  orRollback (wrap "kv: write meta" (writePage metaPageID (encodeMetaPage leafID)))
  wrap "kv: commit" commitTx
  setRoot leafID

def updateLeaf (pageID : ℕ) (keys : List Key) (vals : List Bytes) (pos : ℕ) (packedVal : Bytes)
    (overflowIDs : List ℕ) (nextLeaf : ℕ) : Cmd Unit := do
  let body ← codec (encodeLeafNode keys (vals.set pos packedVal) nextLeaf)
  wrap "kv: begin tx" beginTx
  writeOverflowChainFull overflowIDs packedVal
  orRollback (wrap "kv: write leaf" (writePage pageID body))
  commitTx

def insertIntoLeaf (pageID : ℕ) (keys : List Key) (vals : List Bytes) (k : Key) (packedVal : Bytes)
    (overflowIDs : List ℕ) (nextLeaf : ℕ) : Cmd Unit := do
  let pos := (keys.takeWhile (· < k)).length
  let newKeys := keys.take pos++k::keys.drop pos
  let newVals := vals.take pos++packedVal::vals.drop pos
  let body ← codec (encodeLeafNode newKeys newVals nextLeaf)
  wrap "kv: begin tx" beginTx
  writeOverflowChainFull overflowIDs packedVal
  orRollback (wrap "kv: write leaf" (writePage pageID body))
  commitTx

def insertIntoInternal (parent : PathEntry) (leftChildID rightChildID : ℕ) (sepKey : Key) : Cmd Unit := do
  let newPtrs := parent.childPtrs.take parent.childIdx++leftChildID::rightChildID::
    parent.childPtrs.drop (parent.childIdx+1)
  let newKeys := parent.keys.take parent.childIdx++sepKey::parent.keys.drop parent.childIdx
  let body ← codec (encodeInternalNode newPtrs newKeys)
  writePage parent.pageID body

/-- Split a full inner node; `propagate` inserts the middle key into the node above. -/
def splitInternal (parent : PathEntry) (leftChildID rightChildID : ℕ) (sepKey : Key)
    (newPages : List ℕ) (propagate : ℕ → ℕ → Key → List ℕ → Cmd ℕ) : Cmd ℕ :=
  match newPages with
  | [] => fail (.wrap "no pre-allocated page for internal split" .treeCorrupt)
  | newInternalID::newPages => do
    let allPtrs := parent.childPtrs.take parent.childIdx++leftChildID::rightChildID::
      parent.childPtrs.drop (parent.childIdx+1)
    let allKeys := parent.keys.take parent.childIdx++sepKey::parent.keys.drop parent.childIdx
    let mid := allKeys.length/2
    let leftBody ← codec (encodeInternalNode (allPtrs.take (mid+1)) (allKeys.take mid))
    wrap "kv: write split left internal" (writePage parent.pageID leftBody)
    let rightBody ← codec (encodeInternalNode (allPtrs.drop (mid+1)) (allKeys.drop (mid+1)))
    wrap "kv: write split right internal" (writePage newInternalID rightBody)
    propagate parent.pageID newInternalID (allKeys.getD mid []) newPages

/-- Along the path, the deepest entry first; returns the new root, or 0 when it stays. -/
def insertIntoParent : List PathEntry → ℕ → ℕ → Key → List ℕ → Cmd ℕ
  | [],_,_,_,[] => fail (.wrap "no pre-allocated page for new root" .treeCorrupt)
  | [],leftChildID,rightChildID,sepKey,newRootID::_ => do
    let rootBody ← codec (encodeInternalNode [leftChildID,rightChildID] [sepKey])
    wrap "kv: write new root" (writePage newRootID rootBody)
    wrap "kv: write meta" (writePage metaPageID (encodeMetaPage newRootID))
    pure newRootID
  | parent::path,leftChildID,rightChildID,sepKey,newPages =>
    if parent.keys.length < maxInternalKeys then do
      insertIntoInternal parent leftChildID rightChildID sepKey
      pure 0
    else splitInternal parent leftChildID rightChildID sepKey newPages (insertIntoParent path)

def allocMany (text : String) : ℕ → Cmd (List ℕ)
  | 0 => pure []
  | n+1 => do
    let id ← wrap text allocatePage
    let ids ← allocMany text n
    pure (id::ids)

def splitLeaf (leafID : ℕ) (path : List PathEntry) (keys : List Key) (vals : List Bytes)
    (newKey : Key) (packedVal : Bytes) (overflowIDs : List ℕ) (nextLeaf : ℕ) : Cmd Unit := do
  let pos := (keys.takeWhile (fun x => ¬newKey < x)).length
  let allKeys := keys.take pos++newKey::keys.drop pos
  let allVals := vals.take pos++packedVal::vals.drop pos
  let mid := allKeys.length/2
  let newLeafID ← wrap "kv: allocate new leaf" allocatePage
  let splitPages ← allocMany "kv: pre-allocate for internal split" (path.length+1)
  wrap "kv: begin tx" beginTx
  writeOverflowChainFull overflowIDs packedVal
  let leftBody ← orRollback (codec (encodeLeafNode (allKeys.take mid) (allVals.take mid) newLeafID))
  orRollback (wrap "kv: write left leaf" (writePage leafID leftBody))
  let rightBody ← orRollback (codec (encodeLeafNode (allKeys.drop mid) (allVals.drop mid) nextLeaf))
  orRollback (wrap "kv: write right leaf" (writePage newLeafID rightBody))
  let newRoot ← orRollback
    (insertIntoParent path leafID newLeafID ((allKeys.drop mid).headD []) splitPages)
  wrap "kv: commit split" commitTx
  if newRoot ≠ 0 then setRoot newRoot else pure ()

def unknownText (_ : UInt8) : String := "unknown node type"

/-- The descent of `setInTree`: the path, and the leaf it ends in. -/
def findLeaf (n pageID : ℕ) (k : Key) : Cmd (List PathEntry × ℕ × List Key × List Bytes × ℕ) :=
  walk readText unknownText (fun childPtrs ikeys => upperBoundIdx childPtrs ikeys k)
    (fun path pageID body => do
      let (keys,vals,nextLeaf) ← codec (decodeLeafNode body)
      pure (path,pageID,keys,vals,nextLeaf)) n pageID []

def setInTree (k : Key) (v : Bytes) : Cmd Unit := do
  let (overflowIDs,packedVal) ← if v.length > maxValSize then prepareOverflow v else pure ([],v)
  let s ← Prog.get
  let (path,pageID,keys,vals,nextLeaf) ← findLeaf (← fuel) s.rootPageID k
  match keys.findIdx? (· = k) with
  | some i => updateLeaf pageID keys vals i packedVal overflowIDs nextLeaf
  | none =>
    if keys.length < maxLeafKeys then insertIntoLeaf pageID keys vals k packedVal overflowIDs nextLeaf
    else splitLeaf pageID path keys vals k packedVal overflowIDs nextLeaf

def set (k : Key) (v : Bytes) : Cmd Unit :=
  if k.length > maxKeySize then fail .keyTooLarge
  else if v.length > maxValSizeEnterprise then fail .valueTooLarge
  else do
    checkOpen
    let s ← Prog.get
    if s.rootPageID = rootSentinel then setInEmpty k v else setInTree k v

def deleteFromLeaf (k : Key) (pageID : ℕ) (body : Bytes) : Cmd Unit := do
  let (keys,vals,nextLeaf) ← codec (decodeLeafNode body)
  match keys.findIdx? (· = k) with
  | none => pure ()
  | some pos => do
    let leafBody ← codec (encodeLeafNode (keys.eraseIdx pos) (vals.eraseIdx pos) nextLeaf)
    wrap "kv: begin tx" beginTx
    orRollback (wrap "kv: write leaf" (writePage pageID leafBody))
    commitTx

def deleteFromTree (n pageID : ℕ) (k : Key) : Cmd Unit :=
  walk readText unknownText (fun childPtrs ikeys => upperBoundIdx childPtrs ikeys k)
    (fun _ => deleteFromLeaf k) n pageID []

def delete (k : Key) : Cmd Unit := do
  checkOpen
  let s ← Prog.get
  if s.rootPageID = rootSentinel then pure () else deleteFromTree (← fuel) s.rootPageID k

/-- The inner loop of `scanLeaf`; the flag says that the upper bound was reached. -/
def scanSlots (first last : Key) : List (Key × LeafValueRef) → List Entry → Cmd (Bool × List Entry)
  | [],results => pure (false,results)
  | (lk,ref)::slots,results =>
    if first.length > 0 ∧ lk < first then scanSlots first last slots results
    else if last.length > 0 ∧ ¬lk < last then pure (true,results)
    else do
      let val ← slotValue ref
      scanSlots first last slots (results++[(lk,val)])

def scanLeaf (first last : Key) : ℕ → ℕ → List Entry → Cmd (List Entry)
  | 0,_,_ => .stop .diverge
  | n+1,pageID,results =>
    if pageID = rootSentinel ∨ pageID = 0 then pure results
    else do
      let body ← wrap "kv: scan leaf read" (readPage pageID)
      let (keys,refs,nextLeaf) ← codec (decodeLeafNodeRefs body)
      let (stopped,results) ← scanSlots first last (keys.zip refs) results
      if stopped then pure results else scanLeaf first last n nextLeaf results

def scanFrom (text : ℕ → String) (first last : Key) (n pageID : ℕ) : Cmd (List Entry) :=
  walk text unknownText
    (fun childPtrs ikeys => if first.length = 0 then 0 else upperBoundIdx childPtrs ikeys first)
    (fun _ pageID _ => do scanLeaf first last (← fuel) pageID []) n pageID []

/-- Entries from `first` up to but not including `last`; an empty bound is no bound. -/
def scan (first last : Key) : Cmd (List Entry) := do
  checkOpen
  let s ← Prog.get
  if s.rootPageID = rootSentinel then pure []
  else scanFrom (fun id => s!"kv: scan read page {id}") first last (← fuel) s.rootPageID

end Plomvix.KV
