import Plomvix.PageLog.Places
import Plomvix.Engine.Planner

/-! The store of the logs engine: records on pages, an index of the words of their bodies that is
bounded in memory, and the queries. -/
namespace Plomvix.Logs
open Lib Pager PageLog Engine

/-- One log line. -/
structure LogRecord where
  timestamp : Int64
  severity : UInt8
  attributes : Bytes
  body : Bytes
  deriving DecidableEq

namespace LogRecord

def serializedSize (r : LogRecord) : ℕ := 8+1+2+r.attributes.length+4+r.body.length

def encode (r : LogRecord) : Bytes :=
  leBytes 8 r.timestamp.toUInt64.toNat++(r.severity::(leBytes 2
    r.attributes.length++(r.attributes++(leBytes 4 r.body.length++r.body))))

/-- The lengths fit in their two and four bytes. -/
def Fits (r : LogRecord) : Prop := r.attributes.length < 256^2 ∧ r.body.length < 256^4

@[simp] lemma encode_length (r : LogRecord) : r.encode.length = r.serializedSize := by
  simp only [encode,List.length_append,List.length_cons,leBytes_length,serializedSize]
  omega

end LogRecord

/-- One turn of the loop of `decodeLogPage`: the record in front and its length. -/
def decodeLog (b : Bytes) : Option (LogRecord × ℕ) := do
  let (timestamp,b) ← readLe 8 b
  let (severity,b) ← readBytes 1 b
  let (attrsLen,b) ← readLe 2 b
  let (attributes,b) ← readBytes attrsLen b
  let (bodyLen,b) ← readLe 4 b
  let (body,_) ← readBytes bodyLen b
  pure (⟨(UInt64.ofNat timestamp).toInt64,severity.headD 0,attributes,body⟩,8+1+2+attrsLen+4+bodyLen)

lemma decodeLog_encode (r : LogRecord) (rest : Bytes) (h : r.Fits) :
    decodeLog (r.encode++rest) = some (r,r.encode.length) := by
  have htime : r.timestamp.toUInt64.toNat < 256^8 := r.timestamp.toUInt64.toNat_lt
  have hseverity : ∀ b : Bytes, readBytes 1 (r.severity::b) = some ([r.severity],b) :=
    fun b => readBytes_append [r.severity] b
  rw [r.encode_length]
  simp only [decodeLog,LogRecord.encode,List.append_assoc,List.cons_append,readLe_leBytes htime,
    hseverity,readLe_leBytes h.1,
    readLe_leBytes h.2,readBytes_append,Option.bind_eq_bind,Option.bind_some,Option.pure_def,
      UInt64.ofNat_toNat]
  rfl

def codec : Codec LogRecord where
  encode := LogRecord.encode
  decode := decodeLog
  Fits := LogRecord.Fits
  encode_pos r := by
    rw [r.encode_length,LogRecord.serializedSize]
    omega
  decode_encode := decodeLog_encode

/-- Where a record stands in the log. -/
structure RecordLocator where
  pageID : ℕ
  recordIdx : ℕ
  timestamp : Int64
  deriving DecidableEq

/-- The locators of each term, the terms from the last used one on, and the memory that is reckoned
for them. -/
structure TokenIndex where
  termLocs : Bytes → List RecordLocator
  lru : List Bytes
  maxMemBytes : ℤ
  curMemBytes : ℤ

/-- A run of pages and the times in it. -/
structure BlockDirectoryEntry where
  startPageID : ℕ
  pageCount : ℕ
  minTimestamp : Int64
  maxTimestamp : Int64
  deriving DecidableEq

/-- What a store has besides its pages. -/
structure Enterprise where
  tokenIndex : Option TokenIndex
  blockDirectory : List BlockDirectoryEntry

/-- What is used of Go's text functions, and how the parser prints the text of a string literal
between its quotes. -/
structure TextLib where
  toLower : Bytes → Bytes
  runes : Bytes → List ℕ
  isLetter : ℕ → Bool
  isDigit : ℕ → Bool
  lowerRune : ℕ → ℕ
  encodeRune : ℕ → Bytes
  escape : Bytes → Bytes

section Tokens
variable (lib : TextLib)

def tokenRuns : Bytes → List ℕ → List Bytes
  | current,[] => if current = [] then [] else [current]
  | current,r::rs =>
    if lib.isLetter r || lib.isDigit r then tokenRuns (current++lib.encodeRune (lib.lowerRune r)) rs
    else if current = [] then tokenRuns [] rs
    else current::tokenRuns [] rs

def deduplicateTokens : List Bytes → List Bytes → List Bytes
  | _,[] => []
  | seen,s::rest =>
    if s.length < 2 then deduplicateTokens seen rest
    else if s ∈ seen then deduplicateTokens seen rest
    else s::deduplicateTokens (s::seen) rest

def tokenize (text : Bytes) : List Bytes := deduplicateTokens [] (tokenRuns lib [] (lib.runes text))

namespace TokenIndex

/-- The term that was not used for the longest time is forgotten. -/
def evictOldest (idx : TokenIndex) : TokenIndex :=
  match idx.lru.getLast? with
  | none => idx
  | some term =>
    let freed : ℤ := (idx.termLocs term).length*16+term.length+64
    { idx with
      termLocs := Function.update idx.termLocs term [], lru := idx.lru.dropLast, curMemBytes :=
      max 0 (idx.curMemBytes-freed) }

/-- Terms are forgotten until there is room, or none is left. -/
def makeRoom (added : ℤ) : ℕ → TokenIndex → TokenIndex
  | 0,idx => idx
  | n+1,idx =>
    if idx.maxMemBytes ≤ idx.curMemBytes+added ∧
      idx.lru≠[] then makeRoom added n idx.evictOldest else idx

/-- The locators of the term are read before terms are forgotten. -/
def insert (idx : TokenIndex) (token : Bytes) (loc : RecordLocator) : TokenIndex :=
  let term := lib.toLower token
  let locs := idx.termLocs term
  let added : ℤ := if locs = [] then 16+(term.length+64) else 16
  let idx := makeRoom added idx.lru.length idx
  if idx.maxMemBytes ≤ idx.curMemBytes+added then idx
  else { idx with
    termLocs := Function.update idx.termLocs term (locs++[loc]), lru :=
    term::idx.lru.erase term, curMemBytes := idx.curMemBytes+added }

def intersectLocators : List (List RecordLocator) → List RecordLocator
  | [] => []
  | [locs] => locs
  | first::second::rest => rest.foldl (fun found cur => found.filter (· ∈ cur)) (second.filter (· ∈ first))

/-- `none` is nil: there are no tokens, or one has no locators. -/
def searchAll (idx : TokenIndex) (tokens : List Bytes) : Option (List RecordLocator) :=
  if tokens = [] ∨ ∃ tok ∈ tokens, idx.termLocs (lib.toLower tok) = [] then none
  else some (intersectLocators (tokens.map fun tok => idx.termLocs (lib.toLower tok)))

/-- The memory is not reckoned again. -/
def sweep (idx : TokenIndex) (cutoff : Int64) : TokenIndex :=
  let termLocs := fun term => (idx.termLocs term).filter (cutoff ≤ ·.timestamp)
  { idx with
    termLocs := termLocs, lru := idx.lru.filter fun term => idx.termLocs term = [] ∨
    termLocs term≠[] }

end TokenIndex

def kind : Kind LogRecord Enterprise where
  name := "logs store"
  codec := codec
  serializedSize := LogRecord.serializedSize
  serializedSize_eq r := r.encode_length.symm
  fits r h := by
    have hbound : r.serializedSize ≤ 4076 := h
    simp only [LogRecord.serializedSize] at hbound
    constructor <;> norm_num <;> omega
  insert r place e := some { e with tokenIndex := e.tokenIndex.map fun idx =>
    if r.body = [] then idx
    else (tokenize lib r.body).foldl (fun idx tok =>
      idx.insert lib tok ⟨place.pageID,place.number,r.timestamp⟩) idx }
  skips e := e = .invalidPageID

/-- A bound of zero is none. -/
def inRange (start stop : Int64) (r : LogRecord) : Bool :=
  !(start≠0 && r.timestamp < start) && !(stop≠0 && stop < r.timestamp)

def contains (s sub : Bytes) : Bool := decide (sub <:+: s)

def scanRange (start stop : Int64) (bodyFilter : Bytes) : Cmd Enterprise (List LogRecord) :=
  scan (kind lib) fun r => some (inRange start stop r && (bodyFilter = [] || contains r.body bodyFilter))

/-- The pages in some order; one that cannot be read is left out, and so is a number that the page
does not have. -/
def readLogLocations (start stop : Int64) (locs : List RecordLocator) :
    List ℕ → Cmd Enterprise (List LogRecord)
  | [] => pure []
  | id::ids => do
    let body ← (some <$> call (·.readPage id)).handle fun
      | .err _ => pure none
      | e => .stop e
    match body with
    | none => readLogLocations start stop locs ids
    | some body => do
      let recs := RecordPage.decode codec body
      let found := (locs.filter (·.pageID = id)).filterMap fun loc => recs[loc.recordIdx]?
      let rest ← readLogLocations start stop locs ids
      pure (found.filter (inRange start stop)++rest)

def fallbackFilter : List Bytes → Bytes
  | [tok] => tok
  | _ => []

/-- A term without locators means no record; without any term the bodies are not looked at. -/
def scanRangeWithIndex (order : List ℕ → List ℕ) (start stop : Int64) (tokens : List Bytes) :
    Cmd Enterprise (List LogRecord) := do
  let s ← Prog.get
  if ¬s.opened then Prog.stop (.err .notOpen)
  else
    match s.index.tokenIndex with
    | some idx =>
      if tokens = [] then scanRange lib start stop []
      else
        match idx.searchAll lib tokens with
        | some locs => readLogLocations start stop locs (order (locs.map (·.pageID)))
        | none => pure []
    | none => scanRange lib start stop (fallbackFilter tokens)

end Tokens

end Plomvix.Logs
