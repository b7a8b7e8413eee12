import Plomvix.Lib.Bytes

/-! The on-disk formats of the pager: data pages, the free-list pointer, the mirrored header
and WAL records, byte for byte as `page.go`, `header.go` and `wal.go` lay them out. -/
namespace Plomvix.Pager
open Lib

def pageSize : ℕ := 4096
def headerPageID : ℕ := 0
def mirrorHeaderPageID : ℕ := 1
def firstDataPageID : ℕ := 2
def formatVersion : ℕ := 2
def magicNumber : ℕ := 0x506C6D76
def dataPageBodySize : ℕ := pageSize-12
def freeListSentinel : ℕ := 0xFFFFFFFFFFFFFFFF
def walEOTPageID : ℕ := 0xFFFFFFFFFFFFFFFF

/-- The sentinel errors, an error returned by a file operation, and wrapping with `%w`. -/
inductive Err
  | notOpen | alreadyOpen | closed
  | notAPagerFile | unsupportedVersion | pageSizeMismatch | headerCorrupt
  | pageCorrupt | invalidPageID | bodySizeMismatch | alreadyFree | freeListCorrupt
  | txAlreadyActive | noActiveTx | txUnsupportedOp | walCorrupt
  | io | eof | shortWrite
  | wrap (text : String) (e : Err)
  deriving DecidableEq, Repr

/-- One bit of the reflected polynomial division behind `crc32.ChecksumIEEE`. -/
def crcBit (c : UInt32) : UInt32 := if c &&& 1 = 1 then (c >>> 1) ^^^ 0xEDB88320 else c >>> 1

def crcByte (c : UInt32) (b : UInt8) : UInt32 :=
  crcBit (crcBit (crcBit (crcBit (crcBit (crcBit (crcBit (crcBit (c ^^^ b.toUInt32))))))))

def checksumIEEE (data : Bytes) : ℕ := (~~~(data.foldl crcByte 0xFFFFFFFF)).toNat

/-- The check value of CRC-32/IEEE: the checksum of the digits 1 to 9. -/
example : checksumIEEE [0x31,0x32,0x33,0x34,0x35,0x36,0x37,0x38,0x39] = 0xCBF43926 := by decide +kernel

theorem checksumIEEE_lt (data : Bytes) : checksumIEEE data<256^4 := UInt32.toNat_lt _

def encodeDataPage (body : Bytes) : Except Err Bytes :=
  if body.length≠dataPageBodySize then .error .bodySizeMismatch
  else .ok (List.replicate 8 0++beBytes 4 (checksumIEEE body)++body)

def decodeDataPage (data : Bytes) : Except Err Bytes :=
  if data.length≠pageSize then .error .pageCorrupt
  else if beNat ((data.drop 8).take 4)≠checksumIEEE (data.drop 12) then .error .pageCorrupt
  else .ok (data.drop 12)

def encodeFreeListPointer (nextPageID : ℕ) : Bytes := padTo dataPageBodySize (beBytes 8 nextPageID)

def decodeFreeListPointer (body : Bytes) : Except Err ℕ :=
  if body.length≠dataPageBodySize then .error .pageCorrupt else .ok (beNat (body.take 8))

/-- The header page, decoded. -/
structure PagerHeader where
  magic : ℕ
  version : ℕ
  pageSize : ℕ
  pageCount : ℕ
  freeListHead : ℕ
  freePageCount : ℕ
  deriving DecidableEq, Repr

/-- Bytes [0,36) of a header page, the part the header checksum covers. -/
def headerFields (h : PagerHeader) : Bytes :=
  beBytes 4 h.magic++beBytes 4 h.version++beBytes 4 h.pageSize++beBytes 8 h.pageCount++
    beBytes 8 h.freeListHead++beBytes 8 h.freePageCount

def encodeHeader (h : PagerHeader) : Bytes :=
  padTo pageSize (headerFields h++beBytes 4 (checksumIEEE (headerFields h)))

/-- Validation order: magic, version, page size, checksum. -/
def decodeHeader (data : Bytes) : Except Err PagerHeader :=
  if data.length≠pageSize then .error .headerCorrupt
  else if beNat (data.take 4)≠magicNumber then .error .notAPagerFile
  else if beNat ((data.drop 4).take 4)≠formatVersion then .error .unsupportedVersion
  else if beNat ((data.drop 8).take 4)≠Pager.pageSize then .error .pageSizeMismatch
  else if beNat ((data.drop 36).take 4)≠checksumIEEE (data.take 36) then .error .headerCorrupt
  else .ok ⟨beNat (data.take 4),beNat ((data.drop 4).take 4),beNat ((data.drop 8).take 4),
    beNat ((data.drop 12).take 8),beNat ((data.drop 20).take 8),beNat ((data.drop 28).take 8)⟩

/-- `[8-byte TxnID][8-byte PageID][4-byte BodyLength][Body]`, the bytes a record's CRC covers. -/
def walFields (txnID pageID : ℕ) (body : Bytes) : Bytes :=
  beBytes 8 txnID++beBytes 8 pageID++beBytes 4 body.length++body

def encodeWALRecord (txnID pageID : ℕ) (body : Bytes) : Bytes :=
  walFields txnID pageID body++beBytes 4 (checksumIEEE (walFields txnID pageID body))

def encodeEOTMarker (txnID : ℕ) : Bytes := encodeWALRecord txnID walEOTPageID []

def isEOTMarker (pageID bodyLength : ℕ) : Bool := pageID = walEOTPageID ∧ bodyLength = 0

/-- A page write recorded in the log. -/
structure WALRecord where
  txnID : ℕ
  pageID : ℕ
  body : Bytes
  deriving DecidableEq, Repr

/-- The next record and the number of bytes it takes; `eof` on a trailing incomplete one. -/
def decodeNextWALRecord (data : Bytes) : Except Err (WALRecord × ℕ) :=
  if data.length<20 then .error .eof
  else
    let txnID := beNat (data.take 8)
    let pageID := beNat ((data.drop 8).take 8)
    let bodyLength := beNat ((data.drop 16).take 4)
    if pageID = walEOTPageID ∧ bodyLength≠0 then
      .error (.wrap "EOT marker must have BodyLength=0" .walCorrupt)
    else if pageID≠walEOTPageID ∧ bodyLength≠dataPageBodySize then
      .error (.wrap "data record BodyLength must be DataPageBodySize" .walCorrupt)
    else if data.length<20+bodyLength+4 then .error .eof
    else if beNat ((data.drop (20+bodyLength)).take 4)≠checksumIEEE (data.take (20+bodyLength)) then
      .error (.wrap "CRC mismatch" .walCorrupt)
    else .ok (⟨txnID,pageID,(data.drop 20).take bodyLength⟩,20+bodyLength+4)

end Plomvix.Pager
