import Plomvix.Engine.Schema
import Plomvix.Lib.VersionTable

/-! The system catalog: the system tables in the heap, the maps in memory, and its operations. An
operation checks and reserves under the lock, writes to the heap without it, and publishes in memory
under the lock. -/
namespace Plomvix.Catalog
open Lib
open Engine (ascii)

/-- What a grant allows. -/
inductive Action
  | read | write | ddl
  deriving DecidableEq

def Action.string : Action → Bytes
  | .read => ascii "READ"
  | .write => ascii "WRITE"
  | .ddl => ascii "DDL"

/-- What `isValidAction` accepts. -/
def parseAction (s : Bytes) : Option Action :=
  [Action.read,Action.write,Action.ddl].find? fun a => a.string = s

/-- A row of the tables' system table. -/
structure TableInfo where
  tableID : UInt64
  engineName : Bytes
  tableName : Bytes
  schemaPayload : Bytes
  schemaVersion : UInt64
  deriving DecidableEq

/-- A row of the users' system table. -/
structure UserInfo where
  userID : UInt64
  username : Bytes
  passwordHash : Bytes
  isAdmin : Bool
  deriving DecidableEq

/-- A row of the roles' system table. -/
structure RoleInfo where
  roleID : UInt64
  roleName : Bytes
  deriving DecidableEq

/-- What a grant allows, and to whom. -/
structure GrantKey where
  roleID : UInt64
  tableID : UInt64
  action : Action
  deriving DecidableEq

/-- A row of the grants' system table. -/
structure GrantInfo extends GrantKey where
  grantID : UInt64
  deriving DecidableEq

abbrev UserRoleKey := UInt64 ×ₗ UInt64

/-- One line of the schema history. -/
structure SchemaHistoryEntry where
  historyID : UInt64
  tableID : UInt64
  version : UInt64
  action : Bytes
  schemaPayload : Bytes
  timestamp : UInt64

/-- One line of the audit log. -/
structure AuditEntry where
  auditID : UInt64
  txID : UInt64
  userID : UInt64
  action : Bytes
  targetType : Bytes
  targetName : Bytes
  timestamp : UInt64

/-- The errors of the catalog. -/
inductive Err
  | emptyName | catalogNotStarted | engineNotFound | invalidSchema (text : Bytes) | duplicateTable
  | conflict | tableNotFound | duplicateUser | authFailed | roleNotFound | duplicateRole
  | duplicateRoleAssignment | invalidAction | duplicateGrant | grantNotFound | bcrypt | panic
  | wrap (text : String) (e : SQL.Err)
  deriving DecidableEq

section Heap
variable {K R : Type} [LinearOrder K]

/-- A version is written under a transaction that is newer than the versions of the key; `present`
says whether the row must be there. A fault is an error of the heap or of the store below it. -/
def writeRow (tx : UInt64) (fault : Option SQL.Err) (present : Bool) (e : SQL.Err) (k : K) (row : Option R)
    (t : VersionTable K UInt64 R) : Except SQL.Err (VersionTable K UInt64 R) :=
  if tx = 0 then .error .invalidTx
  else if h : (t.chain k).Before tx then
    if ((t.chain k).visible tx).isSome≠present then .error e
    else match fault with
      | some err => .error err
      | none => .ok (t.push k tx row h)
  else .error .txConflict

def insertRow (tx : UInt64) (fault : Option SQL.Err) (k : K) (row : R) (t : VersionTable K UInt64 R) :
    Except SQL.Err (VersionTable K UInt64 R) := writeRow tx fault false .duplicateKey k (some row) t

def updateRow (tx : UInt64) (fault : Option SQL.Err) (k : K) (row : R) (t : VersionTable K UInt64 R) :
    Except SQL.Err (VersionTable K UInt64 R) := writeRow tx fault true .keyNotFound k (some row) t

def deleteRow (tx : UInt64) (fault : Option SQL.Err) (k : K) (t : VersionTable K UInt64 R) :
    Except SQL.Err (VersionTable K UInt64 R) := writeRow tx fault true .keyNotFound k none t

end Heap

abbrev Rows (R : Type) := VersionTable UInt64 UInt64 R

/-- The system tables. -/
structure SysHeap where
  tables : Rows TableInfo
  users : Rows UserInfo
  metaRows : VersionTable Bytes UInt64 UInt64
  roles : Rows RoleInfo
  grants : Rows GrantInfo
  userRoles : Rows UserRoleKey
  history : Rows SchemaHistoryEntry
  audit : Rows AuditEntry

def SysHeap.empty : SysHeap := ⟨.empty,.empty,.empty,.empty,.empty,.empty,.empty,.empty⟩

def metaKeyNextTxID : Bytes := ascii "catalog_next_tx_id"

inductive Write
  | updateMeta
  | insertTable (info : TableInfo)
  | deleteTable (tableID : UInt64)
  | insertUser (info : UserInfo)
  | insertRole (info : RoleInfo)
  | deleteRole (roleID : UInt64)
  | insertGrant (info : GrantInfo)
  | deleteGrant (grantID : UInt64)
  | insertUserRole (urID : UInt64) (key : UserRoleKey)
  | deleteUserRole (urID : UInt64)
  | insertHistory (entry : SchemaHistoryEntry)
  | insertAudit (entry : AuditEntry)

def Write.apply (tx : UInt64) (fault : Option SQL.Err) (h : SysHeap) : Write → Except SQL.Err SysHeap
  | .updateMeta => (updateRow tx fault metaKeyNextTxID tx h.metaRows).map fun t => { h with metaRows := t }
  | .insertTable info =>
    (insertRow tx fault info.tableID info h.tables).map fun t => { h with tables := t }
  | .deleteTable tableID => (deleteRow tx fault tableID h.tables).map fun t => { h with tables := t }
  | .insertUser info => (insertRow tx fault info.userID info h.users).map fun t => { h with users := t }
  | .insertRole info => (insertRow tx fault info.roleID info h.roles).map fun t => { h with roles := t }
  | .deleteRole roleID => (deleteRow tx fault roleID h.roles).map fun t => { h with roles := t }
  | .insertGrant info =>
    (insertRow tx fault info.grantID info h.grants).map fun t => { h with grants := t }
  | .deleteGrant grantID => (deleteRow tx fault grantID h.grants).map fun t => { h with grants := t }
  | .insertUserRole urID key =>
    (insertRow tx fault urID key h.userRoles).map fun t => { h with userRoles := t }
  | .deleteUserRole urID => (deleteRow tx fault urID h.userRoles).map fun t => { h with userRoles := t }
  | .insertHistory entry =>
    (insertRow tx fault entry.historyID entry h.history).map fun t => { h with history := t }
  | .insertAudit entry =>
    (insertRow tx fault entry.auditID entry h.audit).map fun t => { h with audit := t }

/-- The maps in memory. -/
structure Cache where
  tables : Bytes → Option TableInfo
  users : Bytes → Option UserInfo
  usersByID : UInt64 → Option UserInfo
  pendingTables : List Bytes
  pendingUsers : List Bytes
  nextTableID : UInt64
  nextUserID : UInt64
  roles : Bytes → Option RoleInfo
  rolesByID : UInt64 → Option RoleInfo
  grants : UInt64 → List GrantInfo
  grantsByKey : GrantKey → Option GrantInfo
  userRoles : UInt64 → List UInt64
  userRoleAssignments : List (UserRoleKey × UInt64)
  nextRoleID : UInt64
  nextGrantID : UInt64
  nextUserRoleID : UInt64
  nextHistoryID : UInt64
  nextAuditLogID : UInt64

def newCache : Cache where
  tables _ := none
  users _ := none
  usersByID _ := none
  pendingTables := []
  pendingUsers := []
  nextTableID := 1
  nextUserID := 1
  roles _ := none
  rolesByID _ := none
  grants _ := []
  grantsByKey _ := none
  userRoles _ := []
  userRoleAssignments := []
  nextRoleID := 1
  nextGrantID := 1
  nextUserRoleID := 1
  nextHistoryID := 1
  nextAuditLogID := 1

def above (next id : UInt64) : UInt64 := if next ≤ id then id+1 else next

namespace Cache

def loadTable (c : Cache) (ti : TableInfo) : Cache :=
  { c with
    tables := Function.update c.tables ti.tableName (some ti), nextTableID :=
    above c.nextTableID ti.tableID }

def loadUser (c : Cache) (ui : UserInfo) : Cache :=
  { c with
    users := Function.update c.users ui.username (some ui)
    usersByID := Function.update c.usersByID ui.userID (some ui)
    nextUserID := above c.nextUserID ui.userID }

def loadRole (c : Cache) (ri : RoleInfo) : Cache :=
  { c with
    roles := Function.update c.roles ri.roleName (some ri)
    rolesByID := Function.update c.rolesByID ri.roleID (some ri)
    nextRoleID := above c.nextRoleID ri.roleID }

def addGrant (c : Cache) (gi : GrantInfo) : Cache :=
  { c with
    grants := Function.update c.grants gi.roleID (c.grants gi.roleID++[gi])
    grantsByKey := Function.update c.grantsByKey gi.toGrantKey (some gi) }

def loadGrant (c : Cache) (gi : GrantInfo) : Cache :=
  { c.addGrant gi with nextGrantID := above c.nextGrantID gi.grantID }

def addUserRole (c : Cache) (key : UserRoleKey) (urID : UInt64) : Cache :=
  { c with
    userRoles := Function.update c.userRoles key.1 (c.userRoles key.1++[key.2])
    userRoleAssignments := Assoc.put key urID c.userRoleAssignments }

def loadUserRole (c : Cache) (row : UInt64 × UserRoleKey) : Cache :=
  { c.addUserRole row.2 row.1 with nextUserRoleID := above c.nextUserRoleID row.1 }

end Cache

def loadCache (h : SysHeap) : Cache :=
  let c := (h.tables.rows.map Prod.snd).foldl Cache.loadTable newCache
  let c := (h.users.rows.map Prod.snd).foldl Cache.loadUser c
  let c := (h.roles.rows.map Prod.snd).foldl Cache.loadRole c
  let c := (h.grants.rows.map Prod.snd).foldl Cache.loadGrant c
  let c := h.userRoles.rows.foldl Cache.loadUserRole c
  { c with
    nextHistoryID := h.history.rows.foldl (fun next row => above next row.2.historyID) 1
    nextAuditLogID := h.audit.rows.foldl (fun next row => above next row.2.auditID) 1 }

/-- The cache is there from `Start` to `Stop`. -/
structure State where
  cache : Option Cache
  heap : SysHeap
  nextTxID : UInt64
  schemaVersion : UInt64

def State.new : State := ⟨none,.empty,0,0⟩

/-- What the catalog is given: the engines with what their `ValidateSchema` has against a schema,
and the hashes. -/
structure Deps where
  engines : Bytes → Option (Bytes → Option Bytes)
  generateFromPassword : Bytes → ℕ → Option Bytes
  compareHashAndPassword : Bytes → Bytes → Bool
  sha256 : Bytes → Bytes

/-- What a call meets: the time, the randomness of the hash, and which heap writes fail. -/
structure Env where
  now : UInt64
  salt : ℕ
  faults : ℕ → Option SQL.Err

def bootstrap (fault : Option SQL.Err) (h : SysHeap) : Except Err SysHeap :=
  if (h.metaRows.live metaKeyNextTxID).isSome then .ok h
  else match insertRow 1 fault metaKeyNextTxID 1 h.metaRows with
    | .error e => .error (.wrap "catalog: bootstrap meta: %w" e)
    | .ok t => .ok { h with metaRows := t }

/-- A catalog that is open stays as it is. -/
def start (fault : Option SQL.Err) (s : State) : Except Err Unit × State :=
  match s.cache with
  | some _ => (.ok (),s)
  | none =>
    match bootstrap fault s.heap with
    | .error e => (.error e,s)
    | .ok h =>
      (.ok (),{ s with
        heap := h, cache := some (loadCache h), nextTxID :=
        (h.metaRows.live metaKeyNextTxID).getD s.nextTxID })

/-- Refused while a change is under way. -/
def stop (s : State) : Except Err Unit × State :=
  match s.cache with
  | none => (.ok (),s)
  | some c =>
    if c.pendingTables≠[] ∨ c.pendingUsers≠[] then (.error .conflict,s) else
      (.ok (),{ s with cache := none })

/-- The calls that change the catalog. -/
inductive Op
  | createTable (engineName tableName schemaJSON : Bytes)
  | registerTable (tableID : UInt64) (engineName tableName schemaPayload : Bytes)
  | dropTable (tableName : Bytes)
  | createUser (username password : Bytes) (isAdmin : Bool)
  | createRole (roleName : Bytes)
  | dropRole (roleName : Bytes)
  | assignRole (username roleName : Bytes)
  | revokeRole (username roleName : Bytes)
  | grant (roleName tableName action : Bytes)
  | revoke (roleName tableName action : Bytes)
  deriving DecidableEq

/-- What the checks find for the rest of the call. -/
inductive Ticket
  | createTable (info : TableInfo)
  | registerTable (info : TableInfo)
  | dropTable (tableName : Bytes) (info : TableInfo)
  | createUser (username password : Bytes) (isAdmin : Bool)
  | createRole (roleName : Bytes)
  | dropRole (roleName : Bytes) (info : RoleInfo)
  | assignRole (username roleName : Bytes) (key : UserRoleKey)
  | revokeRole (username roleName : Bytes) (key : UserRoleKey) (urID : UInt64)
  | grant (roleName tableName : Bytes) (key : GrantKey)
  | revoke (roleName tableName : Bytes) (key : GrantKey) (info : GrantInfo)

def require (p : Prop) [Decidable p] (e : Err) : Except Err Unit := if p then .ok () else .error e

def found {α : Type} (o : Option α) (e : Err) : Except Err α :=
  match o with
  | none => .error e
  | some a => .ok a

def State.opened (s : State) : Except Err Cache := found s.cache .catalogNotStarted

/-- No table is meant by the empty name: the grant is for all tables. -/
def grantTable (c : Cache) (tableName : Bytes) : Except Err UInt64 :=
  if tableName = [] then .ok 0 else (found (c.tables tableName) .tableNotFound).map TableInfo.tableID

def userRole (c : Cache) (username roleName : Bytes) : Except Err UserRoleKey := do
  let ui ← found (c.users username) .roleNotFound
  let ri ← found (c.roles roleName) .roleNotFound
  return toLex (ui.userID,ri.roleID)

/-- What a call checks before it writes. -/
def check (deps : Deps) (s : State) : Op → Except Err Ticket
  | .createTable engineName tableName schemaJSON => do
    require (engineName≠[] ∧ tableName≠[]) .emptyName
    let c ← s.opened
    let validateSchema ← found (deps.engines engineName) .engineNotFound
    match validateSchema schemaJSON with
    | some text => .error (.invalidSchema text)
    | none =>
      require (c.tables tableName = none) .duplicateTable
      require (tableName ∉ c.pendingTables) .conflict
      return .createTable ⟨c.nextTableID,engineName,tableName,schemaJSON,1⟩
  | .registerTable tableID engineName tableName schemaPayload => do
    require (engineName≠[] ∧ tableName≠[]) .emptyName
    let c ← s.opened
    require (c.tables tableName = none) .duplicateTable
    require (tableName ∉ c.pendingTables) .conflict
    return .registerTable ⟨tableID,engineName,tableName,schemaPayload,1⟩
  | .dropTable tableName => do
    require (tableName≠[]) .emptyName
    let c ← s.opened
    let ti ← found (c.tables tableName) .tableNotFound
    require (tableName ∉ c.pendingTables) .conflict
    return .dropTable tableName ti
  | .createUser username password isAdmin => do
    require (username≠[]) .emptyName
    let c ← s.opened
    require (c.users username = none) .duplicateUser
    require (username ∉ c.pendingUsers) .conflict
    return .createUser username password isAdmin
  | .createRole roleName => do
    require (roleName≠[]) .emptyName
    let c ← s.opened
    require (c.roles roleName = none) .duplicateRole
    return .createRole roleName
  | .dropRole roleName => do
    require (roleName≠[]) .emptyName
    let c ← s.opened
    let ri ← found (c.roles roleName) .roleNotFound
    return .dropRole roleName ri
  | .assignRole username roleName => do
    require (username≠[] ∧ roleName≠[]) .emptyName
    let c ← s.opened
    let key ← userRole c username roleName
    require (Assoc.lookup key c.userRoleAssignments = none) .duplicateRoleAssignment
    return .assignRole username roleName key
  | .revokeRole username roleName => do
    require (username≠[] ∧ roleName≠[]) .emptyName
    let c ← s.opened
    let key ← userRole c username roleName
    let urID ← found (Assoc.lookup key c.userRoleAssignments) .roleNotFound
    return .revokeRole username roleName key urID
  | .grant roleName tableName action => do
    require (roleName≠[]) .emptyName
    let action ← found (parseAction action) .invalidAction
    let c ← s.opened
    let ri ← found (c.roles roleName) .roleNotFound
    let tableID ← grantTable c tableName
    require (c.grantsByKey ⟨ri.roleID,tableID,action⟩ = none) .duplicateGrant
    return .grant roleName tableName ⟨ri.roleID,tableID,action⟩
  | .revoke roleName tableName action => do
    require (roleName≠[]) .emptyName
    let action ← found (parseAction action) .invalidAction
    let c ← s.opened
    let ri ← found (c.roles roleName) .roleNotFound
    let tableID ← grantTable c tableName
    let gi ← found (c.grantsByKey ⟨ri.roleID,tableID,action⟩) .grantNotFound
    return .revoke roleName tableName ⟨ri.roleID,tableID,action⟩ gi

namespace Ticket

def pendingTables : Ticket → List Bytes
  | .createTable info => [info.tableName]
  | .registerTable info => [info.tableName]
  | .dropTable tableName _ => [tableName]
  | _ => []

def pendingUsers : Ticket → List Bytes
  | .createUser username _ _ => [username]
  | _ => []

end Ticket

def Cache.pend (c : Cache) (t : Ticket) : Cache :=
  { c with
    pendingTables := t.pendingTables++c.pendingTables, pendingUsers :=
    t.pendingUsers++c.pendingUsers }

def Cache.release (c : Cache) (t : Ticket) : Cache :=
  { c with
    pendingTables := c.pendingTables.filter (· ∉ t.pendingTables)
    pendingUsers := c.pendingUsers.filter (· ∉ t.pendingUsers) }

/-- The checks under the lock, and the transaction of the call. -/
def reserve (deps : Deps) (op : Op) (s : State) : Except Err (Ticket × UInt64) × State :=
  match check deps s op with
  | .error e => (.error e,s)
  | .ok t => (.ok (t,s.nextTxID+1),{ s with cache := s.cache.map (·.pend t), nextTxID := s.nextTxID+1 })

/-- What is written and then published, with the numbers that the call has by then. -/
inductive Change
  | createTable (info : TableInfo)
  | registerTable (info : TableInfo)
  | dropTable (tableName : Bytes) (info : TableInfo)
  | createUser (info : UserInfo)
  | createRole (info : RoleInfo)
  | dropRole (roleName : Bytes) (info : RoleInfo)
  | assignRole (key : UserRoleKey) (urID : UInt64)
  | revokeRole (key : UserRoleKey) (urID : UInt64)
  | grant (info : GrantInfo)
  | revoke (key : GrantKey) (info : GrantInfo)

/-- Fails only where a password is not hashed. -/
def change (deps : Deps) (env : Env) (c : Cache) : Ticket → Except Err Change
  | .createTable info => .ok (.createTable info)
  | .registerTable info => .ok (.registerTable info)
  | .dropTable tableName info => .ok (.dropTable tableName info)
  | .createUser username password isAdmin =>
    (found (deps.generateFromPassword password env.salt) .bcrypt).map fun hash =>
      .createUser ⟨c.nextUserID,username,hash,isAdmin⟩
  | .createRole roleName => .ok (.createRole ⟨c.nextRoleID,roleName⟩)
  | .dropRole roleName info => .ok (.dropRole roleName info)
  | .assignRole _ _ key => .ok (.assignRole key c.nextUserRoleID)
  | .revokeRole _ _ key urID => .ok (.revokeRole key urID)
  | .grant _ _ key => .ok (.grant ⟨key,c.nextGrantID⟩)
  | .revoke _ _ key info => .ok (.revoke key info)

/-- A heap write of a call; without a text its error is ignored. -/
structure Step where
  text : Option String
  write : Write

/-- The rows a change writes. -/
def rowSteps (c : Cache) : Change → List Step
  | .createTable info => [⟨some "catalog: insert table: %w",.insertTable info⟩]
  | .registerTable info => [⟨some "catalog: insert table: %w",.insertTable info⟩]
  | .dropTable _ info => [⟨some "catalog: delete table: %w",.deleteTable info.tableID⟩]
  | .createUser info => [⟨some "catalog: insert user: %w",.insertUser info⟩]
  | .createRole info => [⟨some "catalog: insert role: %w",.insertRole info⟩]
  | .dropRole _ info => (c.grants info.roleID).map (fun gi => ⟨none,.deleteGrant gi.grantID⟩)++
      (c.userRoleAssignments.filter (·.1.2 = info.roleID)).map (fun x => ⟨none,.deleteUserRole x.2⟩)++
      [⟨some "catalog: delete role: %w",.deleteRole info.roleID⟩]
  | .assignRole key urID => [⟨some "catalog: assign role: %w",.insertUserRole urID key⟩]
  | .revokeRole _ urID => [⟨some "catalog: revoke role: %w",.deleteUserRole urID⟩]
  | .grant info => [⟨some "catalog: insert grant: %w",.insertGrant info⟩]
  | .revoke _ info => [⟨some "catalog: delete grant: %w",.deleteGrant info.grantID⟩]

def historySteps (env : Env) (c : Cache) : Change → List Step
  | .createTable info =>
    [⟨some "catalog: history: %w",.insertHistory ⟨c.nextHistoryID,info.tableID,1,ascii "CREATE",
      info.schemaPayload,env.now⟩⟩]
  | .registerTable info =>
    [⟨some "catalog: history: %w",.insertHistory ⟨c.nextHistoryID,info.tableID,1,ascii "CREATE",
      info.schemaPayload,env.now⟩⟩]
  | .dropTable _ info => [⟨some "catalog: history: %w",
      .insertHistory ⟨c.nextHistoryID,info.tableID,info.schemaVersion+1,ascii "DROP",
        info.schemaPayload,env.now⟩⟩]
  | _ => []

def auditTarget : Ticket → Bytes × Bytes × Bytes
  | .createTable info => (ascii "CREATE_TABLE",ascii "table",info.tableName)
  | .registerTable info => (ascii "CREATE_TABLE",ascii "table",info.tableName)
  | .dropTable tableName _ => (ascii "DROP_TABLE",ascii "table",tableName)
  | .createUser username _ _ => (ascii "CREATE_USER",ascii "user",username)
  | .createRole roleName => (ascii "CREATE_ROLE",ascii "role",roleName)
  | .dropRole roleName _ => (ascii "DROP_ROLE",ascii "role",roleName)
  | .assignRole username roleName _ =>
    (ascii "ASSIGN_ROLE",ascii "user_role",username++ascii ":"++roleName)
  | .revokeRole username roleName _ _ =>
    (ascii "REVOKE_ROLE",ascii "user_role",username++ascii ":"++roleName)
  | .grant roleName tableName key =>
    (ascii "GRANT",ascii "grant",roleName++ascii ":"++tableName++ascii ":"++key.action.string)
  | .revoke roleName tableName key _ =>
    (ascii "REVOKE",ascii "grant",roleName++ascii ":"++tableName++ascii ":"++key.action.string)

def systemUserID : UInt64 := 0

def auditLog (env : Env) (tx : UInt64) (c : Cache) (t : Ticket) : Step :=
  ⟨some "catalog: audit: %w",.insertAudit ⟨c.nextAuditLogID,tx,systemUserID,(auditTarget t).1,
    (auditTarget t).2.1,
    (auditTarget t).2.2,env.now⟩⟩

def updateMeta : Step := ⟨some "catalog: meta: %w",.updateMeta⟩

/-- All that a call writes, in order. -/
def steps (env : Env) (tx : UInt64) (c : Cache) (t : Ticket) (ch : Change) : List Step :=
  updateMeta::rowSteps c ch++historySteps env c ch++[auditLog env tx c t]

/-- They are done one by one up to the first error, and nothing is taken back; `n` counts them. -/
def runSteps (tx : UInt64) (faults : ℕ → Option SQL.Err) :
    ℕ → List Step → SysHeap → Except Err Unit × SysHeap
  | _,[],h => (.ok (),h)
  | n,step::rest,h =>
    match step.write.apply tx (faults n) h with
    | .ok h => runSteps tx faults (n+1) rest h
    | .error e =>
      match step.text with
      | some text => (.error (.wrap text e),h)
      | none => runSteps tx faults (n+1) rest h

/-- The part of a call without the lock; the cache may be gone by then. -/
def writeHeap (deps : Deps) (env : Env) (t : Ticket) (tx : UInt64) (s : State) :
    Except Err Change × State :=
  match s.cache with
  | none => (.error .panic,s)
  | some c =>
    match change deps env c t with
    | .error e => (.error e,s)
    | .ok ch =>
      match runSteps tx env.faults 0 (steps env tx c t ch) s.heap with
      | (.error e,h) => (.error e,{ s with heap := h })
      | (.ok _,h) => (.ok ch,{ s with heap := h })

namespace Cache

/-- The counters after a change of the tables. -/
def logged (c : Cache) : Cache :=
  { c with nextHistoryID := c.nextHistoryID+1, nextAuditLogID := c.nextAuditLogID+1 }

def audited (c : Cache) : Cache := { c with nextAuditLogID := c.nextAuditLogID+1 }

/-- A role with all that belongs to it is taken out. -/
def dropRole (c : Cache) (roleName : Bytes) (roleID : UInt64) : Cache :=
  { c with
    roles := Function.update c.roles roleName none
    rolesByID := Function.update c.rolesByID roleID none
    grants := Function.update c.grants roleID []
    grantsByKey := fun k => if k.roleID = roleID then none else c.grantsByKey k
    userRoleAssignments := c.userRoleAssignments.filter (·.1.2≠roleID)
    userRoles := fun uid => (c.userRoles uid).filter (·≠roleID) }

def publish (c : Cache) : Change → Cache
  | .createTable info =>
    { c.logged with
      tables := Function.update c.tables info.tableName (some info), nextTableID :=
      c.nextTableID+1 }
  | .registerTable info => { c.logged with tables := Function.update c.tables info.tableName (some info) }
  | .dropTable tableName _ => { c.logged with tables := Function.update c.tables tableName none }
  | .createUser info =>
    { c.audited with
      users := Function.update c.users info.username (some info)
      usersByID := Function.update c.usersByID info.userID (some info)
      nextUserID := c.nextUserID+1 }
  | .createRole info =>
    { c.audited with
      roles := Function.update c.roles info.roleName (some info)
      rolesByID := Function.update c.rolesByID info.roleID (some info)
      nextRoleID := c.nextRoleID+1 }
  | .dropRole roleName info => (c.dropRole roleName info.roleID).audited
  | .assignRole key urID => { (c.addUserRole key urID).audited with nextUserRoleID := c.nextUserRoleID+1 }
  | .revokeRole key _ =>
    { c.audited with
      userRoleAssignments := Assoc.erase key c.userRoleAssignments
      userRoles := Function.update c.userRoles key.1 ((c.userRoles key.1).filter (·≠key.2)) }
  | .grant info => { (c.addGrant info).audited with nextGrantID := c.nextGrantID+1 }
  | .revoke key info =>
    { c.audited with
      grantsByKey := Function.update c.grantsByKey key none
      grants := Function.update c.grants key.roleID
        ((c.grants key.roleID).filter (·.grantID≠info.grantID)) }

end Cache

def Change.versions : Change → UInt64
  | .createTable _ => 1
  | .registerTable _ => 1
  | .dropTable _ _ => 1
  | _ => 0

def State.publish (s : State) (ch : Change) : State :=
  { s with cache := s.cache.map (·.publish ch), schemaVersion := s.schemaVersion+ch.versions }

def State.release (s : State) (t : Ticket) : State := { s with cache := s.cache.map (·.release t) }

/-- An operation without others in between. -/
def call (deps : Deps) (env : Env) (op : Op) (s : State) : Except Err Unit × State :=
  match reserve deps op s with
  | (.error e,s) => (.error e,s)
  | (.ok (t,tx),s) =>
    match writeHeap deps env t tx s with
    | (.error e,s) => (.error e,s.release t)
    | (.ok ch,s) => (.ok (),(s.publish ch).release t)

def allocateTableID (s : State) : Except Err UInt64 × State :=
  match s.cache with
  | none => (.error .catalogNotStarted,s)
  | some c => (.ok c.nextTableID,{ s with cache := some { c with nextTableID := c.nextTableID+1 } })

def getTable (s : State) (tableName : Bytes) : Except Err TableInfo := do
  let c ← s.opened
  found (c.tables tableName) .tableNotFound

def isLegacyHash (hash : Bytes) : Bool := hash.length < 4 ∨ hash.take 4≠ascii "$2a$"

def verifyPassword (deps : Deps) (hash password : Bytes) : Bool :=
  if hash = [] then false
  else if isLegacyHash hash then
    if hash.length < 16 then false else hash.drop 16 = deps.sha256 (hash.take 16++password)
  else deps.compareHashAndPassword hash password

def authenticate (deps : Deps) (s : State) (username password : Bytes) : Except Err UserInfo := do
  let c ← s.opened
  let ui ← found (c.users username) .authFailed
  require (verifyPassword deps ui.passwordHash password = true) .authFailed
  return ui

def Cache.allows (c : Cache) (userID tableID : UInt64) (action : Action) : Bool :=
  match c.usersByID userID with
  | none => false
  | some u => u.isAdmin || (c.userRoles userID).any fun roleID => (c.rolesByID roleID).isSome &&
      (c.grants roleID).any fun gi => (gi.tableID = 0 || gi.tableID = tableID) && gi.action = action

def checkPermission (s : State) (userID tableID : UInt64) (action : Bytes) : Except Err Bool := do
  let action ← found (parseAction action) .invalidAction
  let c ← s.opened
  return c.allows userID tableID action

def checkGlobalPermission (s : State) (userID : UInt64) (action : Bytes) : Except Err Bool :=
  checkPermission s userID 0 action

end Plomvix.Catalog
