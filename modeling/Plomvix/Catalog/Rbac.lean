import Plomvix.Lib.Machine
import Plomvix.Catalog.Agreement

/-! Who may do what, with names only: roles have no numbers here and nothing is indexed. Every sequence of
operations on the catalog is one of this model, and the catalog gives its answers. -/
namespace Plomvix.Catalog
open Lib
open Engine (ascii)

/-- Who holds which role, and what a role may do, by name. -/
@[ext] structure Rbac where
  users : Bytes → Option (UInt64 × Bool)
  tables : Bytes → Option UInt64
  roles : Set Bytes
  assigned : Set (Bytes × Bytes)
  granted : Set (Bytes × UInt64 × Action)

namespace Rbac

def empty : Rbac := ⟨fun _ => none,fun _ => none,∅,∅,∅⟩

/-- All tables together are table 0. -/
def tableOf (m : Rbac) (tableName : Bytes) : Option UInt64 :=
  if tableName = [] then some 0 else m.tables tableName

/-- What a successful operation does. The number of a new user or table is any that none of them has. -/
inductive Step (m : Rbac) : Op → Rbac → Prop
  | createTable {engineName tableName schemaJSON} (id : UInt64) (hn : m.tables tableName = none)
      (hid : ∀ n, m.tables n≠some id) : Step m (.createTable engineName tableName schemaJSON)
        { m with tables := Function.update m.tables tableName (some id) }
  | registerTable {tableID engineName tableName schemaPayload}
      (hn : m.tables tableName = none)
      (hid : ∀ n, m.tables n≠some tableID) :
        Step m (.registerTable tableID engineName tableName schemaPayload)
        { m with tables := Function.update m.tables tableName (some tableID) }
  | dropTable {tableName} (h : m.tables tableName≠none) : Step m (.dropTable tableName)
      { m with tables := Function.update m.tables tableName none }
  | createUser {username password isAdmin} (id : UInt64) (hn : m.users username = none)
      (hid : ∀ n admin, m.users n≠some (id,admin)) : Step m (.createUser username password isAdmin)
        { m with users := Function.update m.users username (some (id,isAdmin)) }
  | createRole {roleName} (hn : roleName ∉ m.roles) :
      Step m (.createRole roleName) { m with roles := insert roleName m.roles }
  | dropRole {roleName} (h : roleName ∈ m.roles) : Step m (.dropRole roleName) { m with
      roles := m.roles \ {roleName}
      assigned := {x | x ∈ m.assigned ∧ x.2≠roleName}
      granted := {x | x ∈ m.granted ∧ x.1≠roleName} }
  | assignRole {username roleName} (hu : m.users username≠none) (hr : roleName ∈ m.roles)
      (hn : (username,roleName) ∉ m.assigned) :
      Step m (.assignRole username roleName) { m with assigned := insert (username,roleName) m.assigned }
  | revokeRole {username roleName} (h : (username,roleName) ∈ m.assigned) :
      Step m (.revokeRole username roleName) { m with assigned := m.assigned \ {(username,roleName)} }
  | grant {roleName tableName action a id} (ha : parseAction action = some a)
      (hr : roleName ∈ m.roles) (ht : m.tableOf tableName = some id) (hn : (roleName,id,a) ∉ m.granted) :
      Step m (.grant roleName tableName action) { m with granted := insert (roleName,id,a) m.granted }
  | revoke {roleName tableName action a id} (ha : parseAction action = some a)
      (ht : m.tableOf tableName = some id) (h : (roleName,id,a) ∈ m.granted) :
      Step m (.revoke roleName tableName action) { m with granted := m.granted \ {(roleName,id,a)} }

lemma Step.of_eq {m m' m'' : Rbac} {op : Op} (h : m.Step op m') (he : m'' = m') : m.Step op m'' := he ▸ h

/-- Operations that fail do nothing. -/
def Spec (a : Env × Op) (m : Rbac) (r : Except Err Unit) (m' : Rbac) : Prop :=
  match r with
  | .ok _ => m.Step a.2 m'
  | .error _ => m' = m

/-- The user is an admin, or has a role to which the action is granted on the table or on all tables. -/
def Allows (m : Rbac) (userID tableID : UInt64) (action : Action) : Prop :=
  ∃ username isAdmin, m.users username = some (userID,isAdmin) ∧ (isAdmin = true ∨
    ∃ role ∈ m.roles, (username,role) ∈ m.assigned ∧ ∃ id, (id = 0 ∨ id = tableID) ∧
      (role,id,action) ∈ m.granted)

end Rbac

def Cache.rbac (c : Cache) : Rbac where
  users := Option.map (fun ui => (ui.userID,ui.isAdmin)) ∘ c.users
  tables := Option.map TableInfo.tableID ∘ c.tables
  roles := {name | c.roles name≠none}
  assigned := {x | ∃ ui ri, c.users x.1 = some ui ∧ c.roles x.2 = some ri ∧
    ri.roleID ∈ c.userRoles ui.userID}
  granted := {x | ∃ ri, c.roles x.1 = some ri ∧ c.grantsByKey ⟨ri.roleID,x.2.1,x.2.2⟩≠none}

section Simulation
variable {c : Cache} {v : View} {op : Op} {ch : Change}

lemma tableOf_eq {tableName : Bytes} {id : UInt64} (h : grantTable c tableName = .ok id) :
    c.rbac.tableOf tableName = some id := by
  rw [grantTable] at h
  rw [Rbac.tableOf]
  split at h
  · rw [if_pos ‹_›]
    cases h
    rfl
  · rw [if_neg ‹_›]
    obtain ⟨ti,hti,rfl⟩ := Except.map_ok.mp h
    exact congrArg (Option.map TableInfo.tableID) (found_eq_ok.mp hti)

lemma Sound.fresh_table (h : Sound c v) {id : UInt64} (hid : v.tables id = none) (n : Bytes) :
    c.rbac.tables n≠some id := by
  intro hn
  obtain ⟨ti,hti,rfl⟩ := Option.map_eq_some_iff.mp hn
  exact nomatch hid.symm.trans ((h.agrees.tables n ti).mp hti).1

lemma Sound.fresh_user (h : Sound c v) {id : UInt64} (hid : v.users id = none) (n : Bytes) (admin : Bool) :
    c.rbac.users n≠some (id,admin) := by
  intro hn
  obtain ⟨ui,hui,heq⟩ := Option.map_eq_some_iff.mp hn
  obtain ⟨rfl,-⟩ := Prod.mk.inj heq
  exact nomatch hid.symm.trans ((h.agrees.users n ui).mp hui).1

lemma Sound.role_free (h : Sound c v) {roleID : UInt64} (hr : v.roles roleID = none) :
    (∀ tableID a, c.grantsByKey ⟨roleID,tableID,a⟩ = none) ∧ ∀ userID, roleID ∉ c.userRoles userID := by
  constructor
  · intro tableID a
    by_contra hne
    obtain ⟨gi,hgi⟩ := Option.ne_none_iff_exists'.mp hne
    obtain ⟨hrow,hkey⟩ := (h.agrees.grantsByKey _ _).mp hgi
    apply h.linked.grants hrow
    rw [show gi.roleID = roleID from congrArg GrantKey.roleID hkey]
    exact hr
  · intro userID hmem
    obtain ⟨urID,hur⟩ := Option.ne_none_iff_exists'.mp (h.agrees.userRoles.mp hmem)
    exact h.linked.roles ((h.agrees.assignments _ _).mp hur) hr

lemma Sound.user_free (h : Sound c v) {userID roleID : UInt64} (hu : v.users userID = none) :
    roleID ∉ c.userRoles userID := by
  intro hmem
  obtain ⟨urID,hur⟩ := Option.ne_none_iff_exists'.mp (h.agrees.userRoles.mp hmem)
  exact h.linked.users ((h.agrees.assignments _ _).mp hur) hu

lemma mem_assigned {u r : Bytes} : (u,r) ∈ c.rbac.assigned ↔
    ∃ ui ri, c.users u = some ui ∧ c.roles r = some ri ∧ ri.roleID ∈ c.userRoles ui.userID := Iff.rfl

lemma mem_granted {r : Bytes} {id : UInt64} {a : Action} : (r,id,a) ∈ c.rbac.granted ↔
    ∃ ri, c.roles r = some ri ∧ c.grantsByKey ⟨ri.roleID,id,a⟩≠none := Iff.rfl

lemma assigned_createUser (h : Sound c v) {ui : UserInfo} (hn : c.users ui.username = none)
    (hid : v.users ui.userID = none) :
    (c.publish (.createUser ui)).rbac.assigned = c.rbac.assigned := by
  ext ⟨u,r⟩
  simp only [mem_assigned,Cache.publish,Cache.audited,Function.update_apply]
  by_cases hu : u = ui.username
  · rw [if_pos hu]
    constructor
    · rintro ⟨_,ri,⟨⟩,-,hmem⟩
      exact (h.user_free hid hmem).elim
    · rintro ⟨_,ri,hui,-⟩
      rw [hu,hn] at hui
      cases hui
  · rw [if_neg hu]

section CreateRole
variable {ri : RoleInfo} (h : Sound c v) (hn : c.roles ri.roleName = none) (hid : v.roles ri.roleID = none)
include h hn hid

lemma assigned_createRole :
    (c.publish (.createRole ri)).rbac.assigned = c.rbac.assigned := by
  ext ⟨u,r⟩
  simp only [mem_assigned,Cache.publish,Cache.audited,Function.update_apply]
  by_cases hr : r = ri.roleName
  · rw [if_pos hr]
    constructor
    · rintro ⟨ui,_,-,⟨⟩,hmem⟩
      exact ((h.role_free hid).2 _ hmem).elim
    · rintro ⟨ui,_,-,hri,-⟩
      rw [hr,hn] at hri
      cases hri
  · rw [if_neg hr]

lemma granted_createRole :
    (c.publish (.createRole ri)).rbac.granted = c.rbac.granted := by
  ext ⟨r,id,a⟩
  simp only [mem_granted,Cache.publish,Cache.audited,Function.update_apply]
  by_cases hr : r = ri.roleName
  · rw [if_pos hr]
    constructor
    · rintro ⟨_,⟨⟩,hne⟩
      exact (hne ((h.role_free hid).1 _ _)).elim
    · rintro ⟨_,hri,-⟩
      rw [hr,hn] at hri
      cases hri
  · rw [if_neg hr]

end CreateRole

section DropRole
variable {roleName : Bytes} {ri : RoleInfo} (h : Sound c v) (hr : c.roles roleName = some ri)
include h hr

lemma assigned_dropRole :
    (c.publish (.dropRole roleName ri)).rbac.assigned = {x | x ∈ c.rbac.assigned ∧ x.2≠roleName} := by
  ext ⟨u,r⟩
  change (∃ ui ri', c.users u = some ui ∧ Function.update c.roles roleName none r = some ri' ∧
    ri'.roleID ∈ (c.userRoles ui.userID).filter (·≠ri.roleID)) ↔ (u,r) ∈ c.rbac.assigned ∧ r≠roleName
  rw [mem_assigned,Function.update_apply]
  by_cases he : r = roleName
  · simp [he]
  · simp only [List.mem_filter,decide_eq_true_eq,ne_eq,he,not_false_eq_true,and_true]
    constructor
    · rintro ⟨ui,ri',hu,hr',hmem,-⟩
      exact ⟨ui,ri',hu,hr',hmem⟩
    · rintro ⟨ui,ri',hu,hr',hmem⟩
      exact ⟨ui,ri',hu,hr',hmem,fun hid => he (h.agrees.roles.name_inj hr' hr hid)⟩

lemma granted_dropRole :
    (c.publish (.dropRole roleName ri)).rbac.granted = {x | x ∈ c.rbac.granted ∧ x.1≠roleName} := by
  ext ⟨r,id,a⟩
  change (∃ ri', Function.update c.roles roleName none r = some ri' ∧
    (if ri'.roleID = ri.roleID then none else c.grantsByKey ⟨ri'.roleID,id,a⟩)≠none) ↔
      (r,id,a) ∈ c.rbac.granted ∧ r≠roleName
  rw [mem_granted,Function.update_apply]
  by_cases he : r = roleName
  · simp [he]
  · simp only [ne_eq,he,not_false_eq_true,and_true]
    refine exists_congr fun ri' => and_congr_right fun hr' => ?_
    rw [if_neg fun hid => he (h.agrees.roles.name_inj hr' hr hid)]

end DropRole

section Assign
variable {username roleName : Bytes} {ui : UserInfo} {ri : RoleInfo} {urID : UInt64}
  (h : Sound c v) (hu : c.users username = some ui) (hr : c.roles roleName = some ri)
include h hu hr

lemma assigned_assignRole :
    (c.publish (.assignRole (toLex (ui.userID,ri.roleID)) urID)).rbac.assigned =
      insert (username,roleName) c.rbac.assigned := by
  ext ⟨u,r⟩
  change (∃ ui' ri', c.users u = some ui' ∧ c.roles r = some ri' ∧ ri'.roleID ∈
    Function.update c.userRoles ui.userID (c.userRoles ui.userID++[ri.roleID]) ui'.userID) ↔ _
  rw [Set.mem_insert_iff,mem_assigned,Prod.mk.injEq]
  simp only [Function.update_apply]
  constructor
  · rintro ⟨ui',ri',hu',hr',hmem⟩
    split at hmem
    · rename_i hid
      obtain rfl := h.agrees.users.name_inj hu' hu hid
      obtain hmem | hmem := List.mem_append.mp hmem
      · exact .inr ⟨ui',ri',hu',hr',hid ▸ hmem⟩
      · exact .inl ⟨rfl,h.agrees.roles.name_inj hr' hr (List.mem_singleton.mp hmem)⟩
    · exact .inr ⟨ui',ri',hu',hr',hmem⟩
  · rintro (⟨rfl,rfl⟩ | ⟨ui',ri',hu',hr',hmem⟩)
    · exact ⟨ui,ri,hu,hr,by simp⟩
    · refine ⟨ui',ri',hu',hr',?_⟩
      split
      · rename_i hid
        exact List.mem_append_left _ (hid ▸ hmem)
      · exact hmem

lemma assigned_revokeRole :
    (c.publish (.revokeRole (toLex (ui.userID,ri.roleID)) urID)).rbac.assigned =
      c.rbac.assigned \ {(username,roleName)} := by
  ext ⟨u,r⟩
  change (∃ ui' ri', c.users u = some ui' ∧ c.roles r = some ri' ∧ ri'.roleID ∈
    Function.update c.userRoles ui.userID ((c.userRoles ui.userID).filter (·≠ri.roleID)) ui'.userID) ↔ _
  rw [Set.mem_sdiff,mem_assigned,Set.mem_singleton_iff,Prod.mk.injEq]
  simp only [Function.update_apply]
  constructor
  · rintro ⟨ui',ri',hu',hr',hmem⟩
    split at hmem
    · rename_i hid
      obtain ⟨hmem,hne⟩ := List.mem_filter.mp hmem
      refine ⟨⟨ui',ri',hu',hr',hid ▸ hmem⟩,?_⟩
      rintro ⟨-,rfl⟩
      rw [hr,Option.some.injEq] at hr'
      simp [hr'] at hne
    · rename_i hid
      refine ⟨⟨ui',ri',hu',hr',hmem⟩,?_⟩
      rintro ⟨rfl,-⟩
      rw [hu,Option.some.injEq] at hu'
      exact hid (hu' ▸ rfl)
  · rintro ⟨⟨ui',ri',hu',hr',hmem⟩,hne⟩
    refine ⟨ui',ri',hu',hr',?_⟩
    split
    · rename_i hid
      obtain rfl := h.agrees.users.name_inj hu' hu hid
      refine List.mem_filter.mpr ⟨hid ▸ hmem,decide_eq_true fun hrid => hne ⟨rfl,?_⟩⟩
      exact h.agrees.roles.name_inj hr' hr hrid
    · exact hmem

end Assign

section Grant
variable {roleName : Bytes} {ri : RoleInfo} {id : UInt64} {a : Action} {gi : GrantInfo}
  (h : Sound c v) (hr : c.roles roleName = some ri)
include h hr

lemma grantKey_eq {r : Bytes} {ri' : RoleInfo} (hr' : c.roles r = some ri')
    {id' : UInt64} {a' : Action} :
    (⟨ri'.roleID,id',a'⟩ : GrantKey) = ⟨ri.roleID,id,a⟩ ↔ (r,id',a') = (roleName,id,a) := by
  simp only [GrantKey.mk.injEq,Prod.mk.injEq]
  refine and_congr ⟨h.agrees.roles.name_inj hr' hr,?_⟩ Iff.rfl
  rintro rfl
  rw [hr,Option.some.injEq] at hr'
  rw [hr']

lemma granted_grant (hkey : gi.toGrantKey = ⟨ri.roleID,id,a⟩) :
    (c.publish (.grant gi)).rbac.granted = insert (roleName,id,a) c.rbac.granted := by
  ext ⟨r,id',a'⟩
  change (∃ ri', c.roles r = some ri' ∧
    Function.update c.grantsByKey gi.toGrantKey (some gi) ⟨ri'.roleID,id',a'⟩≠none) ↔ _
  rw [Set.mem_insert_iff,mem_granted,hkey]
  constructor
  · rintro ⟨ri',hr',hne⟩
    rw [Function.update_apply] at hne
    split at hne
    · exact .inl ((grantKey_eq h hr hr').mp ‹_›)
    · exact .inr ⟨ri',hr',hne⟩
  · rintro (heq | ⟨ri',hr',hne⟩)
    · obtain ⟨rfl,rfl,rfl⟩ : r = roleName ∧ id' = id ∧ a' = a := by simpa using heq
      exact ⟨ri,hr,by simp⟩
    · refine ⟨ri',hr',?_⟩
      rw [Function.update_apply]
      split
      · exact Option.some_ne_none gi
      · exact hne

lemma granted_revoke :
    (c.publish (.revoke ⟨ri.roleID,id,a⟩ gi)).rbac.granted = c.rbac.granted \ {(roleName,id,a)} := by
  ext ⟨r,id',a'⟩
  change (∃ ri', c.roles r = some ri' ∧
    Function.update c.grantsByKey ⟨ri.roleID,id,a⟩ none ⟨ri'.roleID,id',a'⟩≠none) ↔ _
  rw [Set.mem_sdiff,mem_granted,Set.mem_singleton_iff,← exists_and_right]
  refine exists_congr fun ri' => ?_
  rw [and_assoc]
  refine and_congr_right fun hr' => ?_
  rw [← grantKey_eq h hr hr',Function.update_apply]
  split
  · simp [*]
  · simp [*]

end Grant

theorem rbac_publish (h : Sound c v) (hm : Made c op ch)
    (hfit : ∀ l step l', rowSteps c ch = l++step::l' → step.write.Fits (effects v l)) :
    c.rbac.Step op (c.publish ch).rbac := by
  cases hm with
  | @createTable engineName tableName schemaJSON _ hn =>
    refine (Rbac.Step.createTable c.nextTableID ?_ (h.fresh_table (hfit [] _ [] rfl))).of_eq ?_
    · exact congrArg (Option.map TableInfo.tableID) hn
    · exact Rbac.ext rfl (Function.comp_update (Option.map TableInfo.tableID) c.tables _ _) rfl rfl rfl
  | @registerTable tableID engineName tableName schemaPayload _ hn =>
    refine (Rbac.Step.registerTable ?_ (h.fresh_table (hfit [] _ [] rfl))).of_eq ?_
    · exact congrArg (Option.map TableInfo.tableID) hn
    · exact Rbac.ext rfl (Function.comp_update (Option.map TableInfo.tableID) c.tables _ _) rfl rfl rfl
  | @dropTable tableName info hn =>
    refine (Rbac.Step.dropTable ?_).of_eq
      (Rbac.ext rfl (Function.comp_update (Option.map TableInfo.tableID) c.tables _ _) rfl rfl rfl)
    simp [Cache.rbac,hn]
  | @createUser username password hash isAdmin hn =>
    have hnew := hfit [] _ [] rfl
    refine (Rbac.Step.createUser c.nextUserID ?_ (h.fresh_user hnew)).of_eq ?_
    · simp [Cache.rbac,hn]
    · exact Rbac.ext (Function.comp_update (Option.map _) c.users _ _) rfl rfl
        (assigned_createUser h hn hnew) rfl
  | @createRole roleName hn =>
    have hnew := hfit [] _ [] rfl
    refine (Rbac.Step.createRole ?_).of_eq
      (Rbac.ext rfl rfl ?_ (assigned_createRole h hn hnew) (granted_createRole h hn hnew))
    · simp [Cache.rbac,hn]
    · ext r
      change Function.update c.roles roleName _ r≠none ↔ r = roleName ∨ c.roles r≠none
      rw [Function.update_apply]
      split <;> simp [*]
  | @dropRole roleName ri hr =>
    refine (Rbac.Step.dropRole ?_).of_eq
      (Rbac.ext rfl rfl ?_ (assigned_dropRole h hr) (granted_dropRole h hr))
    · simp [Cache.rbac,hr]
    · ext r
      change Function.update c.roles roleName none r≠none ↔ c.roles r≠none ∧ r≠roleName
      rw [Function.update_apply]
      split <;> simp [*]
  | @assignRole username roleName ui ri hu hr hn =>
    refine (Rbac.Step.assignRole ?_ ?_ ?_).of_eq (Rbac.ext rfl rfl rfl (assigned_assignRole h hu hr) rfl)
    · simp [Cache.rbac,hu]
    · simp [Cache.rbac,hr]
    · rintro ⟨ui',ri',hu',hr',hmem⟩
      rw [hu,Option.some.injEq] at hu'
      rw [hr,Option.some.injEq] at hr'
      subst hu' hr'
      exact h.agrees.userRoles.mp hmem hn
  | @revokeRole username roleName ui ri urID hu hr hn =>
    refine (Rbac.Step.revokeRole ?_).of_eq (Rbac.ext rfl rfl rfl (assigned_revokeRole h hu hr) rfl)
    exact ⟨ui,ri,hu,hr,h.agrees.userRoles.mpr (by simp [hn])⟩
  | @grant roleName tableName action ri tableID a hact hr ht hn =>
    refine (Rbac.Step.grant hact ?_ (tableOf_eq ht) ?_).of_eq
      (Rbac.ext rfl rfl rfl rfl (granted_grant h hr rfl))
    · simp [Cache.rbac,hr]
    · rintro ⟨ri',hr',hne⟩
      rw [hr,Option.some.injEq] at hr'
      subst hr'
      exact hne hn
  | @revoke roleName tableName action ri tableID a gi hact hr ht hn =>
    refine (Rbac.Step.revoke hact (tableOf_eq ht) ?_).of_eq
      (Rbac.ext rfl rfl rfl rfl (granted_revoke h hr))
    exact ⟨ri,hr,by simp [hn]⟩

/-- The maps in memory describe the same relations. -/
structure Cache.Paired (c : Cache) : Prop where
  grants : ∀ roleID gi, gi ∈ c.grants roleID ↔ c.grantsByKey gi.toGrantKey = some gi ∧ gi.roleID = roleID
  grantsByKey : ∀ key gi, c.grantsByKey key = some gi → gi.toGrantKey = key
  userRoles : ∀ userID roleID, roleID ∈ c.userRoles userID ↔
    Assoc.lookup (toLex (userID,roleID)) c.userRoleAssignments≠none
  roles : ∀ roleName ri, c.roles roleName = some ri ↔ c.rolesByID ri.roleID = some ri ∧
    ri.roleName = roleName
  rolesByID : ∀ roleID ri, c.rolesByID roleID = some ri → ri.roleID = roleID

lemma Sound.paired (h : Sound c v) : c.Paired where
  grants roleID gi := by
    rw [h.agrees.grants roleID gi,h.agrees.grantsByKey gi.toGrantKey gi]
    simp
  grantsByKey key gi hgi := ((h.agrees.grantsByKey key gi).mp hgi).2
  userRoles _ _ := h.agrees.userRoles
  roles roleName ri := by
    rw [h.agrees.rolesByID]
    exact h.agrees.roles roleName ri
  rolesByID roleID ri hri := h.keyed.roles (h.agrees.rolesByID ▸ hri)

lemma Sound.user_iff (h : Sound c v) {userID : UInt64} {ui : UserInfo} :
    c.usersByID userID = some ui ↔ c.users ui.username = some ui ∧ ui.userID = userID := by
  rw [h.agrees.usersByID,h.agrees.users ui.username ui]
  constructor
  · intro hui
    obtain rfl := h.keyed.users hui
    exact ⟨⟨hui,rfl⟩,rfl⟩
  · rintro ⟨⟨hui,-⟩,rfl⟩
    exact hui

theorem allows_iff (h : Sound c v) {userID tableID : UInt64} {a : Action} :
    c.allows userID tableID a = true ↔ c.rbac.Allows userID tableID a := by
  have hp := h.paired
  rw [Cache.allows]
  constructor
  · cases hu : c.usersByID userID with
    | none => simp
    | some ui =>
      obtain ⟨hname,rfl⟩ := h.user_iff.mp hu
      have huser : c.rbac.users ui.username = some (ui.userID,ui.isAdmin) := by simp [Cache.rbac,hname]
      simp only [Bool.or_eq_true,List.any_eq_true,Bool.and_eq_true,decide_eq_true_eq,
        Option.isSome_iff_exists]
      rintro (hadmin | ⟨roleID,hmem,⟨ri,hri⟩,gi,hgi,htable,rfl⟩)
      · exact ⟨_,_,huser,.inl hadmin⟩
      · obtain rfl := hp.rolesByID _ _ hri
        have hrole := (hp.roles _ _).mpr ⟨hri,rfl⟩
        obtain ⟨hkey,hid⟩ := (hp.grants _ _).mp hgi
        refine ⟨_,_,huser,.inr ⟨ri.roleName,?_,⟨ui,ri,hname,hrole,hmem⟩,gi.tableID,htable,ri,hrole,?_⟩⟩
        · exact fun hn => by cases hrole.symm.trans hn
        · rw [← hid]
          exact fun hn => by cases hkey.symm.trans hn
  · rintro ⟨username,isAdmin,huser,hcase⟩
    obtain ⟨ui,hname,heq⟩ := Option.map_eq_some_iff.mp huser
    obtain ⟨rfl,rfl⟩ := Prod.mk.inj heq
    obtain rfl := ((h.agrees.users _ _).mp hname).2
    rw [h.user_iff.mpr ⟨hname,rfl⟩]
    simp only [Bool.or_eq_true,List.any_eq_true,Bool.and_eq_true,decide_eq_true_eq,
      Option.isSome_iff_exists]
    rcases hcase with hadmin | ⟨role,-,⟨ui',ri,hname',hrole,hmem⟩,id,hid,ri',hrole',hkey⟩
    · exact .inl hadmin
    · obtain rfl := Option.some.inj (hname.symm.trans hname')
      obtain rfl := Option.some.inj (hrole.symm.trans hrole')
      obtain ⟨gi,hgi⟩ := Option.ne_none_iff_exists'.mp hkey
      have hgk := hp.grantsByKey _ _ hgi
      refine .inr ⟨ri.roleID,hmem,⟨ri,((hp.roles _ _).mp hrole).1⟩,gi,(hp.grants _ _).mpr ⟨?_,?_⟩,?_,?_⟩
      · rwa [hgk]
      · rw [hgk]
      · rwa [hgk]
      · rw [hgk]

def Simulates (s : State) (m : Rbac) : Prop := ∃ c, s.cache = some c ∧ Sound c s.heap.view ∧ m = c.rbac

theorem simulates_call {deps : Deps} (a : Env × Op) (s : State) (m : Rbac) (h : Simulates s m)
    (hw : writesSucceed deps a.1 a.2 s = true) :
    ∃ m', Rbac.Spec a m (call deps a.1 a.2 s).1 m' ∧ Simulates (call deps a.1 a.2 s).2 m' := by
  obtain ⟨c,hc,hs,rfl⟩ := h
  obtain ⟨e,n,hcall⟩ | ⟨c',t,ch,heap,hc',ht,hch,hg,hcall⟩ := outcome_of_writesSucceed hw
  · rw [hcall]
    exact ⟨c.rbac,rfl,c,hc,hs,rfl⟩
  · obtain rfl := Option.some.inj (hc.symm.trans hc')
    rw [hcall]
    refine ⟨_,?_,c.publish ch,rfl,hs.publish ht hch hg,rfl⟩
    exact rbac_publish hs (made_of_checked ht hch) fun l step l' hl => fits_rowSteps hg hl

lemma parseAction_string (a : Action) : parseAction a.string = some a := by cases a <;> decide

lemma checkPermission_eq {s : State} (hc : s.cache = some c) (userID tableID : UInt64) (a : Action) :
    checkPermission s userID tableID a.string = .ok (c.allows userID tableID a) := by
  simp [checkPermission,parseAction_string,State.opened,hc,found,bind,Except.bind,pure,Except.pure]

lemma rbac_newCache : newCache.rbac = .empty := by
  refine Rbac.ext rfl rfl ?_ ?_ ?_ <;> ext x <;> simp [Cache.rbac,newCache,Rbac.empty]

/-- From an empty catalog, with heap writes that do not fail: the operations do what they do in the
model, and the permissions are those of the model. -/
theorem permissions_of_history {deps : Deps} {run : List (Env × Op)}
    (hw : Machine.Allowed (fun a => call deps a.1 a.2) (fun a s =>
      writesSucceed deps a.1 a.2 s = true) run (start none .new).2) :
    let r := Machine.run (fun a => call deps a.1 a.2) run (start none .new).2
    ∃ m c, Machine.Trace Rbac.Spec .empty run r.1 m ∧ r.2.cache = some c ∧ c.Paired ∧ m = c.rbac ∧
      (∀ userID tableID a, ∃ b, checkPermission r.2 userID tableID a.string = .ok b ∧
        (b = true ↔ m.Allows userID tableID a)) ∧
      ∀ userID tableID action, parseAction action = none →
        checkPermission r.2 userID tableID action = .error .invalidAction := by
  have hstart : Simulates (start none .new).2 .empty := ⟨newCache,rfl,sound_new,rbac_newCache.symm⟩
  obtain ⟨m,htrace,c,hc,hs,rfl⟩ := Machine.run_traces simulates_call hstart hw
  refine ⟨c.rbac,c,htrace,hc,hs.paired,rfl,fun userID tableID a => ?_,fun userID tableID action hact => ?_⟩
  · exact ⟨_,checkPermission_eq hc userID tableID a,allows_iff hs⟩
  · simp [checkPermission,hact,found,bind,Except.bind]

end Simulation

/-- Every engine takes every schema, and the hash of a password shows it. -/
def plainDeps : Deps where
  engines _ := some fun _ => none
  generateFromPassword password _ := some (ascii "$2a$"++password)
  compareHashAndPassword hash password := hash = ascii "$2a$"++password
  sha256 := id

/-- Operations during which nothing fails. -/
def plainly (ops : List Op) : List (Env × Op) := ops.map fun op => (⟨0,0,fun _ => none⟩,op)

def readerOps : List Op :=
  [.createUser (ascii "ada") (ascii "pw") false,.createRole (ascii "reader"),
    .createTable (ascii "sql") (ascii "t") (ascii "x"),
    .assignRole (ascii "ada") (ascii "reader"),.grant (ascii "reader") (ascii "t") (ascii "READ")]

theorem permissions_of_reader :
    Machine.Allowed (fun a => call plainDeps a.1 a.2) (fun a s =>
      writesSucceed plainDeps a.1 a.2 s = true) (plainly readerOps)
        (start none .new).2 ∧
      ∃ m, Machine.Trace Rbac.Spec .empty (plainly readerOps)
          (Machine.run (fun a => call plainDeps a.1 a.2) (plainly readerOps) (start none .new).2).1 m ∧
        m.Allows 1 1 .read ∧ ¬m.Allows 1 1 .write := by
  have hw : Machine.Allowed (fun a => call plainDeps a.1 a.2) (fun a s =>
    writesSucceed plainDeps a.1 a.2 s = true)
      (plainly readerOps) (start none .new).2 := by
    refine ⟨?_,?_,?_,?_,?_,trivial⟩ <;> decide +kernel
  obtain ⟨m,c,htrace,hc,-,-,hperm,-⟩ := permissions_of_history hw
  refine ⟨hw,m,htrace,?_,?_⟩
  · obtain ⟨b,hb,hm⟩ := hperm 1 1 .read
    rw [← hm]
    have hread : checkPermission (Machine.run (fun a =>
      call plainDeps a.1 a.2) (plainly readerOps) (start none .new).2).2 1 1
        Action.read.string = .ok true := by decide +kernel
    exact Except.ok.inj (hb.symm.trans hread)
  · obtain ⟨b,hb,hm⟩ := hperm 1 1 .write
    rw [← hm]
    have hwrite : checkPermission (Machine.run (fun a =>
      call plainDeps a.1 a.2) (plainly readerOps) (start none .new).2).2 1 1
        Action.write.string = .ok false := by decide +kernel
    rw [Except.ok.inj (hb.symm.trans hwrite)]
    exact Bool.false_ne_true
end Plomvix.Catalog
