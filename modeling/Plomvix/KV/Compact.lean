import Plomvix.Lib.BulkLoad
import Plomvix.KV.Store

/-! `Compact` of `btree.go`: read every entry, build a new tree bottom-up on new pages, swap
the root in a transaction, then free the old tree as far as that goes. -/
namespace Plomvix.KV
open Lib Pager

def scanAll (n pageID : ℕ) : Cmd (List Entry) := scanFrom (fun _ => "kv: scanAll read") [] [] n pageID

/-- The pages reached by following an overflow chain are freed; what was visited is returned. -/
def freeOverflowChain : ℕ → ℕ → List ℕ → Cmd (List ℕ)
  | n,pageID,visited =>
    if pageID = rootSentinel ∨ pageID = 0 ∨ pageID ∈ visited then pure visited
    else match n with
      | 0 => .stop .diverge
      | n+1 => do
        match ← attempt (readPage pageID) with
        | none => pure (pageID::visited)
        | some body =>
          match decodeOverflowPage body with
          | .error _ => pure (pageID::visited)
          | .ok (nextPtr,_) => do
            let _ ← attempt (freePage pageID)
            freeOverflowChain n nextPtr (pageID::visited)

/-- The overflow chains of a leaf; a leaf that does not decode has none. -/
def overflowHeads (body : Bytes) : List ℕ :=
  match decodeLeafNodeRefs body with
  | .ok (_,refs,_) => (refs.filter (·.hasOverflow)).map (·.overflowPageID)
  | .error _ => []

def childPointers (body : Bytes) : List ℕ :=
  match decodeInternalNode body with
  | .ok (childPtrs,_) => childPtrs
  | .error _ => []

def freeNode : ℕ → ℕ → List ℕ → Cmd (List ℕ)
  | n,pageID,visited =>
    if pageID = rootSentinel ∨ pageID = 0 ∨ pageID ∈ visited then pure visited
    else match n with
      | 0 => .stop .diverge
      | n+1 => do
        match ← attempt (readPage pageID) with
        | none => pure (pageID::visited)
        | some body => do
          let visited ←
            (if body.headD 0 = nodeTypeLeaf then
              (overflowHeads body).foldlM (fun vs id => freeOverflowChain n id vs) (pageID::visited)
            else if body.headD 0 = nodeTypeInternal then
              (childPointers body).foldlM (fun vs id => freeNode n id vs) (pageID::visited)
            else pure (pageID::visited))
          let _ ← attempt (freePage pageID)
          pure visited

def freeTreePages (rootPageID : ℕ) : Cmd Unit := do
  if rootPageID = rootSentinel then pure ()
  else do
    let n ← fuel
    let _ ← freeNode n rootPageID []
    pure ()

/-- The bytes for a leaf slot. The overflow pages of a long value are allocated here, and
nothing is written to them. -/
def compactValue (v : Bytes) : Cmd Bytes :=
  if v.length > maxValSize then do
    let (_,packed) ← prepareOverflow v
    pure packed
  else pure v

def compactVals (es : List Entry) : Cmd (List Bytes) := es.mapM (fun e => compactValue e.2)

def compactLeaf (entries : List Entry) (i : ℕ) : Cmd (ℕ × Bytes) := do
  let es := chunk maxLeafKeys i entries
  let vals ← compactVals es
  let leafID ← wrap "kv: compact allocate leaf" allocatePage
  let leafBody ← wrap "kv: compact encode leaf"
    (codec (encodeLeafNode (es.map Prod.fst) vals rootSentinel))
  pure (leafID,leafBody)

def patchLeaf (entries : List Entry) (leafPageIDs : List ℕ) (i : ℕ) : Cmd Bytes := do
  let es := chunk maxLeafKeys i entries
  let vals ← compactVals es
  wrap "kv: compact re-encode leaf"
    (codec (encodeLeafNode (es.map Prod.fst) vals (leafPageIDs.getD (i+1) 0)))

/-- The separators of the `i`-th node of a level, with `c` children, as the code computes
them on every level: from a position in the entries that counts children for the node's start. -/
def compactSeps (entries : List Entry) (i c : ℕ) : List Key :=
  (List.range (c-1)).map fun j =>
    let firstIdx := i*(maxInternalKeys+1)+(j+1)*maxLeafKeys
    (entries.getD (if firstIdx ≥ entries.length then entries.length-1 else firstIdx) ([],[])).1

def compactInternal (entries : List Entry) (currentLevel : List ℕ) (i : ℕ) : Cmd (ℕ × Bytes) := do
  let children := chunk (maxInternalKeys+1) i currentLevel
  let intID ← wrap "kv: compact allocate internal" allocatePage
  let intBody ← wrap "kv: compact encode internal"
    (codec (encodeInternalNode children (compactSeps entries i children.length)))
  pure (intID,intBody)

def compactLevels (entries : List Entry) : ℕ → List ℕ → Cmd (ℕ × List (ℕ × Bytes))
  | _,[] => .stop .panic
  | _,[root] => pure (root,[])
  | 0,_::_::_ => .stop .diverge
  | n+1,a::b::rest => do
    let currentLevel := a::b::rest
    let nodes ← (List.range (chunkCount (maxInternalKeys+1) currentLevel.length)).mapM
      (compactInternal entries currentLevel)
    let (root,above) ← compactLevels entries n (nodes.map Prod.fst)
    pure (root,nodes++above)

def writePages : List (ℕ × Bytes) → Cmd Unit
  | [] => pure ()
  | (id,body)::ws => do
    wrap s!"kv: compact write page {id}" (writePage id body)
    writePages ws

def swapRoot (rootPageID : ℕ) : Cmd Unit := do
  wrap "kv: compact begin tx" beginTx
  orRollback (wrap "kv: compact write meta" (writePage metaPageID (encodeMetaPage rootPageID)))
  wrap "kv: compact commit" commitTx
  setRoot rootPageID

/-- The bodies of the leaves, the last one as it was first made. -/
def leafBodies (m : ℕ) (leafPages : List (ℕ × Bytes)) (patched : List Bytes) : List Bytes :=
  patched++(leafPages.map Prod.snd).drop (m-1)

def bulkLoad (entries : List Entry) : Cmd (ℕ × List (ℕ × Bytes)) := do
  let numLeaves := chunkCount maxLeafKeys entries.length
  let leafPages ← (List.range numLeaves).mapM (compactLeaf entries)
  let leafPageIDs := leafPages.map Prod.fst
  let patched ← (List.range (numLeaves-1)).mapM (patchLeaf entries leafPageIDs)
  let (newRootID,nodes) ← compactLevels entries numLeaves leafPageIDs
  pure (newRootID,leafPageIDs.zip (leafBodies numLeaves leafPages patched)++nodes)

def compact : Cmd Unit := do
  checkOpen
  let s ← Prog.get
  if s.rootPageID = rootSentinel then pure ()
  else do
    let entries ← wrap "kv: compact scan" (do scanAll (← fuel) s.rootPageID)
    if entries.length = 0 then do
      swapRoot rootSentinel
      freeTreePages s.rootPageID
    else do
      let (newRootID,newPages) ← bulkLoad entries
      writePages newPages
      let _ ← (readPage newRootID).handle (fun
        | .err _ => fail (.wrap "compact validation" .treeCorrupt)
        | e => .stop e)
      swapRoot newRootID
      freeTreePages s.rootPageID

end Plomvix.KV
