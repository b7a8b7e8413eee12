import Plomvix.Pager.Format

/-! What a pager is for, stated without files: a numbered store of page bodies with a free
list and one transaction at a time. A committed transaction replaces the bodies it wrote;
until then they are seen by its own reads only. -/
namespace Plomvix.Pager
open Lib

/-- Pages beyond this number lie at a byte offset that no `int64` can hold. -/
def maxPages : ℕ := 2^51

def zeroBody : Bytes := List.replicate dataPageBodySize 0

/-- The page bodies, and the writes of the open transaction. -/
structure PageStore where
  pageCount : ℕ
  freeList : List ℕ
  body : ℕ → Bytes
  txn : Option (ℕ → Option Bytes)

namespace PageStore

/-- A store in which nothing has been allocated. -/
def empty : PageStore := ⟨firstDataPageID,[],fun _ => zeroBody,none⟩

/-- A data page that is neither reserved, nor beyond the end, nor on the free list. -/
def Live (s : PageStore) (id : ℕ) : Prop :=
  firstDataPageID ≤ id ∧ id < s.pageCount ∧ id ∉ s.freeList

instance (s : PageStore) (id : ℕ) : Decidable (s.Live id) := by unfold Live; infer_instance

/-- The body a read sees: the open transaction's own write, if there is one. -/
def view (s : PageStore) (id : ℕ) : Bytes := ((s.txn.bind fun b => b id).getD (s.body id))

def allocatePage (s : PageStore) : Except Err ℕ × PageStore :=
  if s.txn.isSome then (.error .txUnsupportedOp,s)
  else match s.freeList with
    | id::rest => (.ok id,{ s with freeList := rest, body := Function.update s.body id zeroBody })
    | [] =>
      if s.pageCount < maxPages then
        (.ok s.pageCount,{ s with pageCount := s.pageCount+1,
                                  body := Function.update s.body s.pageCount zeroBody })
      else (.error .io,s)

def readPage (s : PageStore) (id : ℕ) : Except Err Bytes × PageStore :=
  if s.Live id then (.ok (s.view id),s) else (.error .invalidPageID,s)

def writePage (s : PageStore) (id : ℕ) (b : Bytes) : Except Err Unit × PageStore :=
  if ¬s.Live id then (.error .invalidPageID,s)
  else if b.length≠dataPageBodySize then (.error .bodySizeMismatch,s)
  else match s.txn with
    | none => (.ok (),{ s with body := Function.update s.body id b })
    | some t => (.ok (),{ s with txn := some (Function.update t id (some b)) })

def freePage (s : PageStore) (id : ℕ) : Except Err Unit × PageStore :=
  if s.txn.isSome then (.error .txUnsupportedOp,s)
  else if id = 0 ∨ s.pageCount ≤ id then (.error .invalidPageID,s)
  else if id ∈ s.freeList then (.error .alreadyFree,s)
  else (.ok (),{ s with freeList := id::s.freeList,
                        body := Function.update s.body id
                          (encodeFreeListPointer (s.freeList.headD freeListSentinel)) })

def beginTx (s : PageStore) : Except Err Unit × PageStore :=
  if s.txn.isSome then (.error .txAlreadyActive,s)
  else (.ok (),{ s with txn := some fun _ => none })

def commitTx (s : PageStore) : Except Err Unit × PageStore :=
  match s.txn with
  | none => (.error .noActiveTx,s)
  | some _ => (.ok (),{ s with body := s.view, txn := none })

def rollbackTx (s : PageStore) : Except Err Unit × PageStore :=
  match s.txn with
  | none => (.error .noActiveTx,s)
  | some _ => (.ok (),{ s with txn := none })

end PageStore
end Plomvix.Pager
