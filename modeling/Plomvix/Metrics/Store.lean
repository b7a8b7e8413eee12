import Plomvix.PageLog.Durability

/-! The store of the metrics engine: points on pages, an index of their tags, and the two ways to
search them. -/
namespace Plomvix.Metrics
open Lib Pager PageLog

/-- The value is the bits of a `float64`. -/
structure Point where
  timestamp : Int64
  tags : Bytes
  metricName : Bytes
  value : UInt64
  deriving DecidableEq

namespace Point

def serializedSize (p : Point) : ℕ := 8+2+p.tags.length+2+p.metricName.length+8

def encode (p : Point) : Bytes :=
  leBytes 8 p.timestamp.toUInt64.toNat++(leBytes 2 p.tags.length++(p.tags++(leBytes 2
    p.metricName.length++(p.metricName++leBytes 8 p.value.toNat))))

end Point

/-- One turn of the loop of `decodePage`: the point in front and its length. -/
def decodePoint (b : Bytes) : Option (Point × ℕ) := do
  let (timestamp,b) ← readLe 8 b
  let (tagsLen,b) ← readLe 2 b
  let (tags,b) ← readBytes tagsLen b
  let (nameLen,b) ← readLe 2 b
  let (name,b) ← readBytes nameLen b
  let (bits,_) ← readLe 8 b
  pure (⟨(UInt64.ofNat timestamp).toInt64,tags,name,UInt64.ofNat bits⟩,8+2+tagsLen+2+nameLen+8)

/-- The tags and the name have lengths of two bytes. -/
def Point.Fits (p : Point) : Prop := p.tags.length < 256^2 ∧ p.metricName.length < 256^2

@[simp] lemma Point.encode_length (p : Point) : p.encode.length = p.serializedSize := by
  simp only [Point.encode,List.length_append,leBytes_length,Point.serializedSize]
  omega

lemma decodePoint_encode (p : Point) (rest : Bytes) (h : p.Fits) :
    decodePoint (p.encode++rest) = some (p,p.encode.length) := by
  have htime : p.timestamp.toUInt64.toNat < 256^8 := p.timestamp.toUInt64.toNat_lt
  have hvalue : p.value.toNat < 256^8 := p.value.toNat_lt
  have hlen : p.encode.length = p.serializedSize := p.encode_length
  rw [hlen]
  simp only [decodePoint,Point.encode,List.append_assoc,readLe_leBytes htime,readLe_leBytes hvalue,
    readLe_leBytes h.1,readLe_leBytes h.2,
    readBytes_append,Option.bind_eq_bind,Option.bind_some,Option.pure_def,UInt64.ofNat_toNat]
  rfl

def codec : Codec Point where
  encode := Point.encode
  decode := decodePoint
  Fits := Point.Fits
  encode_pos p := by
    rw [p.encode_length,Point.serializedSize]
    omega
  decode_encode := decodePoint_encode

/-- Where a sample stands in the store. -/
structure RecordLocator where
  pageID : ℕ
  offset : ℕ
  timestamp : Int64
  deriving DecidableEq

/-- The locators of each key and value. -/
abbrev TagIndex := Bytes → Bytes → List RecordLocator

def newTagIndex : TagIndex := fun _ _ => []

/-- `bytes.Trim` of double quotes. -/
def trimQuotes (b : Bytes) : Bytes := ((b.dropWhile (· = 34)).reverse.dropWhile (· = 34)).reverse

section Tags
variable (trimSpace : Bytes → Bytes)

/-- One pair of the list; a later one of the same key replaces an earlier one. -/
def addPair (m : Bytes → Option Bytes) (pair : Bytes) : Bytes → Option Bytes :=
  let pair := trimSpace pair
  if 61 ∈ pair then
    Function.update m (trimSpace (pair.takeWhile (·≠61)))
      (some (trimQuotes (trimSpace ((pair.dropWhile (·≠61)).drop 1))))
  else m

/-- The pairs of a text. A brace in front is dropped with the last byte, which panics on a brace alone. -/
def splitTagPairs (s : Bytes) : Option (Bytes → Option Bytes) :=
  if s = [] then some fun _ => none
  else if s.head? = some 123 then
    if s.length < 2 then none else
      some ((s.tail.dropLast.splitOn 44).foldl (addPair trimSpace) fun _ => none)
  else some ((s.splitOn 44).foldl (addPair trimSpace) fun _ => none)

/-- A key that the point does not have is taken for one with the empty value. -/
def matchTags (tags : Bytes) (required : List (Bytes × Bytes)) : Option Bool :=
  if required = [] then some true
  else (splitTagPairs trimSpace tags).map fun pairs => required.all fun kv => (pairs kv.1).getD [] = kv.2

def TagIndex.insert (idx : TagIndex) (tags : Bytes) (loc : RecordLocator) : Option TagIndex :=
  (splitTagPairs trimSpace tags).map fun pairs key val => if pairs key = some val then
    idx key val++[loc] else idx key val

def kind : Kind Point (Option TagIndex) where
  name := "metrics store"
  codec := codec
  serializedSize := Point.serializedSize
  serializedSize_eq p := p.encode_length.symm
  fits p h := by
    have hbound : p.serializedSize ≤ 4076 := h
    simp only [Point.serializedSize] at hbound
    constructor <;> norm_num <;> omega
  insert p place
    | none => some none
    | some idx =>
      if p.tags = [] then some (some idx) else
        (idx.insert trimSpace p.tags ⟨place.pageID,place.offset,p.timestamp⟩).map some
  skips _ := false

/-- The test of a scan: the time first, then the tags. -/
def keeps (start stop : Int64) (tags : List (Bytes × Bytes)) (p : Point) : Option Bool :=
  if p.timestamp < start ∨ stop < p.timestamp then some false else matchTags trimSpace p.tags tags

/-- The points of a time range whose tags match. -/
def scanRange (start stop : Int64) (tags : List (Bytes × Bytes)) : Cmd (Option TagIndex) (List Point) :=
  scan (kind trimSpace) (keeps trimSpace start stop tags)

end Tags

end Plomvix.Metrics
