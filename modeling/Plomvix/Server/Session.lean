import Plomvix.Server.Protocol

/-! A session: the startup, then a loop over the messages of the client, each of which is answered
with packets. -/
namespace Plomvix.Server
open Lib Engine Planner

/-- The rows of a result up to its end; an end other than `io.EOF` has a text. -/
structure RowStream where
  schema : Schema
  rows : List Row
  failure : Option Bytes
  deriving DecidableEq

/-- What the engine answers the session. -/
structure Result where
  stream : Option RowStream
  rowsAffected : Int64
  message : Bytes
  deriving DecidableEq

/-- The parser and the router that the server is given; errors are their texts. -/
structure Deps (Stmt R : Type) where
  lib : ServerLib
  parse : Bytes → Except Bytes Stmt
  route : R → Stmt → Except Bytes Result × R

/-- A statement prepared by `Parse`. -/
structure PreparedPlan where
  name : Bytes
  sql : Bytes
  paramOIDs : List ℕ
  deriving DecidableEq

/-- A plan bound to parameters by `Bind`. -/
structure Portal where
  name : Bytes
  planName : Bytes
  parameters : List Datum
  deriving DecidableEq

/-- A connection and what it has sent. -/
structure Session (R : Type) where
  statements : Bytes → Option PreparedPlan
  portals : Bytes → Option Portal
  router : R
  sent : List Sent

def newSession {R : Type} (router : R) (sent : List Sent) : Session R :=
  ⟨fun _ => none,fun _ => none,router,sent⟩

def contains (s sub : Bytes) : Bool := decide (sub <:+: s)

def isCatalogQuery (lib : ServerLib) (sql : Bytes) : Bool :=
  ["pg_catalog","version()","current_schema()","show ","pg_type","pg_settings"].any fun sub =>
    contains (lib.toLower sql) (ascii sub)

def textRow (s : String) : Row := ⟨[⟨.string,.string (ascii s)⟩],0⟩

def oidRow (oid : Int64) (name : String) : Row := ⟨[⟨.int64,.int64 oid⟩,⟨.string,.string (ascii name)⟩],0⟩

def textColumn (name : String) : Schema := ⟨[⟨ascii name,.string,false,none⟩]⟩

def executeMockCatalog (lib : ServerLib) (sql : Bytes) : Option (Schema × List Row × Bytes) :=
  let lower := lib.toLower sql
  if contains lower (ascii "version()") then
    some (textColumn "version",[textRow "Plomvix 0.1.0 (PostgreSQL 15.0.0 compatibility)"],
      ascii "SELECT 1")
  else if contains lower (ascii "current_schema()") ∨ contains lower (ascii "current_schema") then
    some (textColumn "current_schema",[textRow "public"],ascii "SELECT 1")
  else if contains lower (ascii "pg_type") then
    some (⟨[⟨ascii "oid",.int64,false,none⟩,⟨ascii "typname",.string,false,none⟩]⟩,
      [oidRow 16 "bool",oidRow 20 "int8",oidRow 701 "float8",oidRow 1043 "varchar"],ascii "SELECT 4")
  else if contains lower (ascii "show ") then
    some (textColumn "setting",[textRow (if contains lower (ascii "client_encoding") then "UTF8"
      else if contains lower (ascii "standard_conforming_strings") then "on"
      else if contains lower (ascii "datestyle") then "ISO, YMD" else "")],ascii "SELECT 1")
  else none

/-- The answer of a probe, where the statement is taken for one. -/
def mockAnswer (lib : ServerLib) (sql : Bytes) : Option (Schema × List Row × Bytes) :=
  if isCatalogQuery lib sql then executeMockCatalog lib sql else none

def splitNull (b : Bytes) : List Bytes :=
  let parts := b.splitOn 0
  if parts.getLast? = some [] then parts.dropLast else parts

section Handlers
variable {Stmt R : Type} (deps : Deps Stmt R)

def Session.write (s : Session R) (p : Packet) : Session R := { s with sent := s.sent++[.packet p] }

def Session.writeAll (s : Session R) (ps : List Packet) : Session R :=
  { s with sent := s.sent++ps.map .packet }

def Session.writeError (s : Session R) (code : String) (message : Bytes) : Session R :=
  s.write (errorResponse (ascii "ERROR") (ascii code) message)

/-- The number of rows is that of the result, which a SELECT leaves at zero. -/
def completionTag (result : Result) : Bytes :=
  if result.rowsAffected = 0 ∧ result.message≠[] then result.message else
    ascii "SELECT "++decimalInt result.rowsAffected

/-- The rows are sent until the stream returns an error, whichever it is. -/
def resultPackets (result : Result) : List Packet :=
  (match result.stream with
    | none => []
    | some stream => rowDescription stream.schema::stream.rows.map (dataRow deps.lib))++
  [commandComplete (completionTag result),readyForQuery idle]

def executeSQL (sql : Bytes) (s : Session R) : Session R :=
  match mockAnswer deps.lib sql with
  | some (schema,rows,tag) =>
    s.writeAll (rowDescription schema::rows.map (dataRow deps.lib)++[commandComplete tag,
      readyForQuery idle])
  | none =>
    match deps.parse sql with
    | .error e => s.writeError "42601" e
    | .ok stmt =>
      match deps.route s.router stmt with
      | (.error e,r) => { s with router := r }.writeError "42000" e
      | (.ok result,r) => { s with router := r }.writeAll (resultPackets deps result)

def handleQuery (payload : Bytes) (s : Session R) : Session R :=
  if payload = [] then s.write (readyForQuery idle) else executeSQL deps payload s

def paramOIDs : ℕ → Bytes → List ℕ
  | 0,_ => []
  | n+1,b => if 4 ≤ b.length then beNat (b.take 4)::paramOIDs n (b.drop 4) else []

def handleParse (payload : Bytes) (s : Session R) : Session R :=
  match splitNull payload with
  | name::sql::rest::_ =>
    let oids := if 2 ≤ rest.length then paramOIDs (beNat (rest.take 2)) (rest.drop 2) else []
    { s with statements := Function.update s.statements name (some ⟨name,sql,oids⟩) }.write
      ⟨msgParseComplete,[]⟩
  | [_,_] => s.writeError "42601" (ascii "Parse message too short")
  | _ => s.writeError "42601" (ascii "invalid Parse message")

/-- The parameters from a position on; a slice with a negative length panics. -/
def bindParams (rest : Bytes) : ℕ → ℕ → Option (List Datum)
  | 0,_ => some []
  | n+1,pos =>
    if pos+4 ≤ rest.length then
      let paramLen := (BitVec.ofNat 32 (beNat ((rest.drop pos).take 4))).toInt
      if paramLen = -1 then (bindParams rest n (pos+4)).map (⟨.null,.nil⟩::·)
      else if (pos+4 : ℕ)+paramLen ≤ rest.length then
        if paramLen < 0 then none
        else (bindParams rest n (pos+4+paramLen.toNat)).map
          (textToDatum deps.lib ((rest.drop (pos+4)).take paramLen.toNat)::·)
      else bindParams rest n (pos+4)
    else some []

/-- The third part of the message is taken for all that follows the two names. -/
def bindValues (rest : Bytes) : Option (List Datum) :=
  if 2 ≤ rest.length then
    let pos := 2+beNat (rest.take 2)*2
    if pos+2 ≤ rest.length then bindParams deps rest (beNat ((rest.drop pos).take 2)) (pos+2) else some []
  else some []

/-- `none` is a panic. -/
def handleBind (payload : Bytes) (s : Session R) : Option (Session R) :=
  match splitNull payload with
  | portalName::stmtName::rest::_ =>
    if s.statements stmtName = none ∧ stmtName≠[] then
      some (s.writeError "26000" (ascii "prepared statement does not exist"))
    else (bindValues deps rest).map fun params =>
      { s with portals := Function.update s.portals portalName (some ⟨portalName,stmtName,params⟩)
        }.write ⟨msgBindComplete,[]⟩
  | _ => some (s.writeError "42601" (ascii "invalid Bind message"))

/-- `strings.Replace` of every occurrence; so many bytes in front belong to the last one. -/
def replaceAll (old new : Bytes) : ℕ → Bytes → Bytes
  | _,[] => []
  | skip+1,_::s => replaceAll old new skip s
  | 0,c::s => if old <+: c::s then new++replaceAll old new (old.length-1) s else c::replaceAll old new 0 s

def placeholder (n : ℕ) : Bytes := 36::decimal n

/-- The parameters are put in one after another, each into the text that the ones before have left. -/
def substituteParams (sql : Bytes) : ℕ → List Datum → Bytes
  | _,[] => sql
  | i,param::params =>
    substituteParams (replaceAll (placeholder (i+1)) (datumToText deps.lib param) 0 sql)
      (i+1) params

/-- The statement that an Execute message runs, if its portal and its plan are there. -/
def handleExecute (payload : Bytes) (s : Session R) : Session R :=
  match splitNull payload with
  | [] => s.writeError "42601" (ascii "invalid Execute message")
  | portalName::_ =>
    match s.portals portalName with
    | none => s.writeError "34000" (ascii "portal does not exist")
    | some portal =>
      match s.statements portal.planName with
      | none => s.writeError "26000" (ascii "prepared statement does not exist")
      | some plan => executeSQL deps (substituteParams deps plan.sql 0 portal.parameters) s

def handleDescribe (_payload : Bytes) (s : Session R) : Session R := s.write ⟨110,[]⟩

def handleSync (s : Session R) : Session R := s.write (readyForQuery idle)

def handleClose (_payload : Bytes) (s : Session R) : Session R := s.write ⟨msgCloseComplete,[]⟩

/-- One turn of the loop, for every type but Terminate. -/
def handleMessage (mType : UInt8) (payload : Bytes) (s : Session R) : Option (Session R) :=
  if mType = msgQuery then some (handleQuery deps payload s)
  else if mType = msgParse then some (handleParse payload s)
  else if mType = msgBind then handleBind deps payload s
  else if mType = msgExecute then some (handleExecute deps payload s)
  else if mType = msgDescribeStmt then some (handleDescribe payload s)
  else if mType = msgSync then some (handleSync s)
  else if mType = msgCloseStmt then some (handleClose payload s)
  else some (s.writeError "0A000" (ascii "unsupported protocol message type"))

/-- The main loop over what is left of the input; it ends with the input, at a frame that is not
one, or at Terminate. -/
def commandLoop : ℕ → Bytes → Session R → Option (Session R)
  | 0,_,s => some s
  | n+1,input,s =>
    if input.length < 5 then some s
    else
      let length := beNat ((input.drop 1).take 4)
      if length < 4 ∨ 2^24 < length-4 then some s
      else if input.length < length+1 then some s
      else if input.head? = some msgTerminate then some s
      else (handleMessage deps (input.headD 0) ((input.drop 5).take (length-4)) s).bind
        (commandLoop n (input.drop (length+1)))

end Handlers

/-- What `io.ReadFull` says of so many bytes that came. -/
def readError (n : ℕ) : Bytes := if n = 0 then ascii "EOF" else ascii "unexpected EOF"

/-- The handshake: the input that is left, or the text of the error. A request for SSL is answered
and the handshake starts again. -/
def handleStartup (tls : Bool) : ℕ → Bytes → Except Bytes Bytes × List Sent
  | 0,_ => (.error (ascii "server: startup read: "++readError 0),[])
  | n+1,input =>
    if input.length < 4 then (.error (ascii "server: startup read: "++readError input.length),[])
    else
      let length := beNat (input.take 4)
      if length < 4 ∨ 2^31 ≤ length then (.error (ascii "server: startup message too short"),[])
      else if input.length < length then
        (.error (ascii "server: startup payload: "++readError (input.length-4)),[])
      else
        let payload := (input.drop 4).take (length-4)
        if 4 ≤ payload.length ∧ beNat (payload.take 4) = 80877103 then
          let (r,sent) := handleStartup tls n (input.drop length)
          (r,.byte (if tls then 83 else msgSSLRequestN)::sent)
        else if payload.length < 4 then (.error (ascii "server: invalid startup message"),[])
        else if beNat (payload.take 4)≠196608 then
          (.error (ascii "server: unsupported protocol version "++decimal (beNat (payload.take 4))),[])
        else (.ok (input.drop length),startupPackets.map .packet)

/-- All that a client is sent for what it sends; `none` is a panic. -/
def run {Stmt R : Type} (deps : Deps Stmt R) (tls : Bool) (router : R) (input : Bytes) :
    Option (List Sent) :=
  match handleStartup tls (input.length+1) input with
  | (.error e,sent) => some (sent++[.packet (errorResponse (ascii "FATAL") (ascii "08000") e)])
  | (.ok rest,sent) => (commandLoop deps (rest.length+1) rest (newSession router sent)).map (·.sent)

end Plomvix.Server
