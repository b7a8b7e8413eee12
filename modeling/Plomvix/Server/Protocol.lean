import Plomvix.Planner.Join

/-! The packets of the PostgreSQL wire protocol that the server sends. -/
namespace Plomvix.Server
open Lib Engine Planner

/-- `Sscanf` with `%d` and `%f`. -/
structure ServerLib extends PlanLib where
  sscanInt : Bytes → Option Int64
  sscanFloat : Bytes → Option UInt64

def msgQuery : UInt8 := 81
def msgRowDescription : UInt8 := 84
def msgDataRow : UInt8 := 68
def msgCommandComplete : UInt8 := 67
def msgReadyForQuery : UInt8 := 90
def msgAuthenticationRequest : UInt8 := 82
def msgErrorResponse : UInt8 := 69
def msgParameterStatus : UInt8 := 83
def msgBackendKeyData : UInt8 := 75
def msgTerminate : UInt8 := 88
def msgSSLRequestN : UInt8 := 78
def msgParse : UInt8 := 80
def msgBind : UInt8 := 66
def msgExecute : UInt8 := 69
def msgDescribeStmt : UInt8 := 68
def msgSync : UInt8 := 83
def msgCloseStmt : UInt8 := 67
def msgParseComplete : UInt8 := 49
def msgBindComplete : UInt8 := 50
def msgCloseComplete : UInt8 := 51

/-- A message of the wire protocol. -/
structure Packet where
  typ : UInt8
  payload : Bytes
  deriving DecidableEq

/-- `WritePacket`. -/
def Packet.bytes (p : Packet) : Bytes := p.typ::(beBytes 4 (p.payload.length+4)++p.payload)

/-- What goes to the connection: packets, and the byte that answers a request for SSL. -/
inductive Sent
  | byte (b : UInt8)
  | packet (p : Packet)
  deriving DecidableEq

def engineTypeToOID : Typ → ℕ
  | .bool => 16
  | .int64 => 20
  | .uint64 => 20
  | .float64 => 701
  | .string => 1043
  | _ => 0

def typeSize (t : Typ) : ℕ := if t = .int64 ∨ t = .uint64 ∨ t = .float64 ∨ t = .bool then 8 else 0xffff

def rowDescription (schema : Schema) : Packet where
  typ := msgRowDescription
  payload := beBytes 2 schema.columns.length++schema.columns.flatMap fun col =>
    col.name++[0]++[0,0,0,0]++[0,0]++beBytes 4 (engineTypeToOID col.typ)++beBytes 2
      (typeSize col.typ)++[0xff,0xff,0xff,0xff]++[0,0]

def datumToText (lib : ServerLib) (d : Datum) : Bytes :=
  match d.value with
  | .nil => []
  | .int64 i => decimalInt i
  | .uint64 n => decimal n.toNat
  | .float64 bits => lib.formatFloat bits
  | .bool b => if b then ascii "t" else ascii "f"
  | .string s => s
  | .bytes b => b

def dataRow (lib : ServerLib) (row : Row) : Packet where
  typ := msgDataRow
  payload := beBytes 2 row.datums.length++row.datums.flatMap fun d =>
    if d.value = .nil then [0xff,0xff,0xff,0xff] else
      beBytes 4 (datumToText lib d).length++datumToText lib d

def commandComplete (tag : Bytes) : Packet := ⟨msgCommandComplete,tag++[0]⟩

def readyForQuery (status : UInt8) : Packet := ⟨msgReadyForQuery,[status]⟩

def errorResponse (severity code message : Bytes) : Packet :=
  ⟨msgErrorResponse,[83]++severity++[0]++[67]++code++[0]++[77]++message++[0]++[0]⟩

def authOK : Packet := ⟨msgAuthenticationRequest,[0,0,0,0]⟩

def parameterStatus (key value : Bytes) : Packet := ⟨msgParameterStatus,key++[0]++value++[0]⟩

def backendKeyData (pid key : ℕ) : Packet := ⟨msgBackendKeyData,beBytes 4 pid++beBytes 4 key⟩

/-- `I`, idle. -/
def idle : UInt8 := 73

/-- Try an integer first, then a float; whatever follows the number is dropped. -/
def textToDatum (lib : ServerLib) (s : Bytes) : Datum :=
  match lib.sscanInt s with
  | some i => ⟨.int64,.int64 i⟩
  | none =>
    match lib.sscanFloat s with
    | some bits => ⟨.float64,.float64 bits⟩
    | none => ⟨.string,.string s⟩

def startupPackets : List Packet :=
  [authOK,parameterStatus (ascii "server_version") (ascii "15.0.0"),
    parameterStatus (ascii "client_encoding") (ascii "UTF8"),
    parameterStatus (ascii "DateStyle") (ascii "ISO, YMD"),
      parameterStatus (ascii "standard_conforming_strings") (ascii "on"),
    backendKeyData 42 99,readyForQuery idle]

/-- The number of packets of a type. -/
def countPackets (typ : UInt8) (sent : List Sent) : ℕ :=
  sent.countP fun
    | .packet p => p.typ == typ
    | .byte _ => false

section Count
variable {typ : UInt8} {sent sent' : List Sent}

@[simp] lemma countPackets_append : countPackets typ (sent++sent') =
      countPackets typ sent+countPackets typ sent' := List.countP_append

@[simp] lemma countPackets_byte (b : UInt8) :
    countPackets typ (.byte b::sent) = countPackets typ sent := by
  rw [countPackets,List.countP_cons_of_neg (by simp)]
  rfl

@[simp] lemma countPackets_nil : countPackets typ [] = 0 := rfl

lemma countPackets_packet (p : Packet) :
    countPackets typ (.packet p::sent) = countPackets typ sent+if p.typ = typ then 1 else 0 := by
  rw [countPackets,List.countP_cons]
  by_cases h : p.typ = typ <;> simp [h,countPackets]

end Count
end Plomvix.Server
