import Plomvix.Catalog.Rbac

/-! Stop and start: what is loaded from the rows of the system tables is what was in memory. -/
namespace Plomvix.Catalog
open Lib
open Engine (ascii)

section Fold
variable {c : Cache}

lemma foldl_loadTable (l : List TableInfo) : l.foldl Cache.loadTable c = { c with
    tables := l.foldl (fun m ti => Function.update m ti.tableName (some ti)) c.tables
    nextTableID := (l.map TableInfo.tableID).foldl above c.nextTableID } := by
  induction l generalizing c with
  | nil => rfl
  | cons ti l ih =>
    rw [List.foldl_cons,ih]
    rfl

lemma foldl_loadUser (l : List UserInfo) : l.foldl Cache.loadUser c = { c with
    users := l.foldl (fun m ui => Function.update m ui.username (some ui)) c.users
    usersByID := l.foldl (fun m ui => Function.update m ui.userID (some ui)) c.usersByID
    nextUserID := (l.map UserInfo.userID).foldl above c.nextUserID } := by
  induction l generalizing c with
  | nil => rfl
  | cons ui l ih =>
    rw [List.foldl_cons,ih]
    rfl

lemma foldl_loadRole (l : List RoleInfo) : l.foldl Cache.loadRole c = { c with
    roles := l.foldl (fun m ri => Function.update m ri.roleName (some ri)) c.roles
    rolesByID := l.foldl (fun m ri => Function.update m ri.roleID (some ri)) c.rolesByID
    nextRoleID := (l.map RoleInfo.roleID).foldl above c.nextRoleID } := by
  induction l generalizing c with
  | nil => rfl
  | cons ri l ih =>
    rw [List.foldl_cons,ih]
    rfl

lemma foldl_loadGrant (l : List GrantInfo) : l.foldl Cache.loadGrant c = { c with
    grants := l.foldl (fun m gi => Function.update m gi.roleID (m gi.roleID++[gi])) c.grants
    grantsByKey := l.foldl (fun m gi => Function.update m gi.toGrantKey (some gi)) c.grantsByKey
    nextGrantID := (l.map GrantInfo.grantID).foldl above c.nextGrantID } := by
  induction l generalizing c with
  | nil => rfl
  | cons gi l ih =>
    rw [List.foldl_cons,ih]
    rfl

lemma foldl_loadUserRole (l : List (UInt64 × UserRoleKey)) : l.foldl Cache.loadUserRole c = { c with
    userRoles := l.foldl (fun m row => Function.update m row.2.1 (m row.2.1++[row.2.2])) c.userRoles
    userRoleAssignments := l.foldl (fun m row => Assoc.put row.2 row.1 m) c.userRoleAssignments
    nextUserRoleID := (l.map Prod.fst).foldl above c.nextUserRoleID } := by
  induction l generalizing c with
  | nil => rfl
  | cons row l ih =>
    rw [List.foldl_cons,ih]
    rfl

lemma loadCache_eq (h : SysHeap) : loadCache h = { newCache with
    tables := (h.tables.rows.map Prod.snd).foldl (fun m ti =>
      Function.update m ti.tableName (some ti)) fun _ => none
    users := (h.users.rows.map Prod.snd).foldl (fun m ui =>
      Function.update m ui.username (some ui)) fun _ => none
    usersByID := (h.users.rows.map Prod.snd).foldl (fun m ui =>
      Function.update m ui.userID (some ui)) fun _ => none
    nextTableID := ((h.tables.rows.map Prod.snd).map TableInfo.tableID).foldl above 1
    nextUserID := ((h.users.rows.map Prod.snd).map UserInfo.userID).foldl above 1
    roles := (h.roles.rows.map Prod.snd).foldl (fun m ri =>
      Function.update m ri.roleName (some ri)) fun _ => none
    rolesByID := (h.roles.rows.map Prod.snd).foldl (fun m ri =>
      Function.update m ri.roleID (some ri)) fun _ => none
    grants := (h.grants.rows.map Prod.snd).foldl (fun m gi =>
      Function.update m gi.roleID (m gi.roleID++[gi])) fun _ => []
    grantsByKey := (h.grants.rows.map Prod.snd).foldl (fun m gi =>
      Function.update m gi.toGrantKey (some gi)) fun _ => none
    userRoles := h.userRoles.rows.foldl (fun m row =>
      Function.update m row.2.1 (m row.2.1++[row.2.2])) fun _ => []
    userRoleAssignments := h.userRoles.rows.foldl (fun m row => Assoc.put row.2 row.1 m) []
    nextRoleID := ((h.roles.rows.map Prod.snd).map RoleInfo.roleID).foldl above 1
    nextGrantID := ((h.grants.rows.map Prod.snd).map GrantInfo.grantID).foldl above 1
    nextUserRoleID := (h.userRoles.rows.map Prod.fst).foldl above 1
    nextHistoryID := h.history.rows.foldl (fun next row => above next row.2.historyID) 1
    nextAuditLogID := h.audit.rows.foldl (fun next row => above next row.2.auditID) 1 } := by
  rw [loadCache,foldl_loadTable,foldl_loadUser,foldl_loadRole,foldl_loadGrant,foldl_loadUserRole]
  rfl

end Fold

section Load
variable {c : Cache} {h : SysHeap}

lemma lookup_foldl_put (l : List (UInt64 × UserRoleKey)) (a : List (UserRoleKey × UInt64)) :
    (Assoc.lookup · (l.foldl (fun m row => Assoc.put row.2 row.1 m) a)) =
      l.foldl (fun (m : UserRoleKey → Option UInt64) row =>
        Function.update m row.2 (some row.1)) (Assoc.lookup · a) := by
  induction l generalizing a with
  | nil => rfl
  | cons row l ih =>
    rw [List.foldl_cons,ih,List.foldl_cons,lookup_put_eq]

lemma sorted_foldl_put (l : List (UInt64 × UserRoleKey)) {a : List (UserRoleKey × UInt64)}
    (ha : Assoc.Sorted a) :
    Assoc.Sorted (l.foldl (fun m row => Assoc.put row.2 row.1 m) a) := by
  induction l generalizing a with
  | nil => exact ha
  | cons row l ih => exact ih (Assoc.sorted_put _ _ ha)

lemma grants_loaded (roleID : UInt64) :
    (loadCache h).grants roleID = (h.grants.rows.map Prod.snd).filter (·.roleID = roleID) := by
  rw [loadCache_eq]
  refine foldl_append.trans ?_
  rw [List.nil_append,List.map_id']

lemma userRoles_loaded (userID : UInt64) :
    (loadCache h).userRoles userID = (h.userRoles.rows.filter (·.2.1 = userID)).map (·.2.2) := by
  rw [loadCache_eq]
  exact foldl_append

lemma lookup_loaded (hu : Unique h.view) {key : UserRoleKey} {id : UInt64} :
    Assoc.lookup key (loadCache h).userRoleAssignments = some id ↔ h.userRoles.live id = some key := by
  have hrows : h.userRoles.rows.Nodup := List.Nodup.of_map Prod.fst (VersionTable.sorted_rows.imp ne_of_lt)
  have hnodup : (h.userRoles.rows.map Prod.snd).Nodup := by
    refine List.Nodup.map_on (fun row hrow row' hrow' he => ?_) hrows
    exact Prod.ext (hu.userRoles (VersionTable.mem_rows.mp hrow) (he ▸ VersionTable.mem_rows.mp hrow')) he
  have hlookup := congrFun (lookup_foldl_put h.userRoles.rows []) key
  rw [loadCache_eq]
  change Assoc.lookup key (h.userRoles.rows.foldl _ []) = _ ↔ _
  rw [hlookup,foldl_update hnodup fun _ _ => rfl]
  simp only [Assoc.lookup,reduceCtorEq,false_or,← VersionTable.mem_rows]
  constructor
  · rintro ⟨row,hrow,rfl,rfl⟩
    exact hrow
  · intro hrow
    exact ⟨_,hrow,rfl,rfl⟩

lemma byNumber_foldl {R : Type} {t : Rows R} {number : R → UInt64}
    (hk : ∀ {id r}, t.live id = some r → number r = id) :
    (t.rows.map Prod.snd).foldl (fun m r => Function.update m (number r) (some r)) (fun _ => none) =
      t.live := by
  refine Indexes.eq_rows (indexes_foldl (VersionTable.mem_rows_snd hk) (VersionTable.nodup_rows hk) ?_) hk
  intro r r' hr hr' he
  rw [he] at hr
  exact Option.some.inj (hr.symm.trans hr')

theorem agrees_loadCache (hk : Keyed h.view) (hu : Unique h.view) : Agrees (loadCache h) h.view := by
  have hload := loadCache_eq h
  constructor
  · rw [hload]
    exact indexes_foldl (VersionTable.mem_rows_snd hk.tables)
      (VersionTable.nodup_rows hk.tables) fun _ _ => hu.tables
  · rw [hload]
    exact indexes_foldl (VersionTable.mem_rows_snd hk.users)
      (VersionTable.nodup_rows hk.users) fun _ _ => hu.users
  · rw [hload]
    exact byNumber_foldl hk.users
  · rw [hload]
    exact indexes_foldl (VersionTable.mem_rows_snd hk.roles)
      (VersionTable.nodup_rows hk.roles) fun _ _ => hu.roles
  · rw [hload]
    exact byNumber_foldl hk.roles
  · intro roleID gi
    rw [grants_loaded,List.mem_filter,VersionTable.mem_rows_snd hk.grants,decide_eq_true_eq]
    rfl
  · rw [hload]
    exact indexes_foldl (VersionTable.mem_rows_snd hk.grants)
      (VersionTable.nodup_rows hk.grants) fun _ _ => hu.grants
  · intro roleID
    rw [grants_loaded]
    exact (VersionTable.nodup_rows hk.grants).sublist (List.filter_sublist.map _)
  · intro userID roleID
    rw [userRoles_loaded,Option.ne_none_iff_exists']
    simp only [lookup_loaded hu,List.mem_map,List.mem_filter,decide_eq_true_eq,← VersionTable.mem_rows]
    constructor
    · rintro ⟨⟨id,key⟩,⟨hrow,rfl⟩,rfl⟩
      exact ⟨id,hrow⟩
    · rintro ⟨id,hrow⟩
      exact ⟨_,⟨hrow,rfl⟩,rfl⟩
  · exact fun _ _ => lookup_loaded hu
  · rw [hload]
    exact sorted_foldl_put _ List.Pairwise.nil

lemma sound_loadCache (hs : Sound c h.view) : Sound (loadCache h) h.view :=
  ⟨agrees_loadCache hs.keyed (hs.agrees.unique hs.keyed),hs.keyed,hs.linked⟩

end Load
end Plomvix.Catalog
