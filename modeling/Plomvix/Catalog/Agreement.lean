import Plomvix.Lib.Index
import Plomvix.Catalog.Calls

/-! The maps in memory and the rows of the system tables say the same. Every operation whose heap writes go
through keeps this, and the cache that is loaded from the rows is in agreement with them. -/
namespace Plomvix.Catalog
open Lib

/-- Every row is under its own number. -/
structure Keyed (v : View) : Prop where
  tables : ∀ {id info}, v.tables id = some info → info.tableID = id
  users : ∀ {id info}, v.users id = some info → info.userID = id
  roles : ∀ {id info}, v.roles id = some info → info.roleID = id
  grants : ∀ {id info}, v.grants id = some info → info.grantID = id

/-- Grants are to roles that are there, and roles that are there are assigned to users that are there. -/
structure Linked (v : View) : Prop where
  grants : ∀ {id info}, v.grants id = some info → v.roles info.roleID≠none
  users : ∀ {id key}, v.userRoles id = some key → v.users key.1≠none
  roles : ∀ {id key}, v.userRoles id = some key → v.roles key.2≠none

/-- No two rows have the same name. -/
structure Unique (v : View) : Prop where
  tables : ∀ {id id' r r'}, v.tables id = some r → v.tables id' = some r' →
    r.tableName = r'.tableName → r = r'
  users : ∀ {id id' r r'}, v.users id = some r → v.users id' = some r' → r.username = r'.username → r = r'
  roles : ∀ {id id' r r'}, v.roles id = some r → v.roles id' = some r' → r.roleName = r'.roleName → r = r'
  grants : ∀ {id id' r r'}, v.grants id = some r → v.grants id' = some r' →
    r.toGrantKey = r'.toGrantKey → r = r'
  userRoles : ∀ {id id' key}, v.userRoles id = some key → v.userRoles id' = some key → id = id'

/-- The cache and the rows of the store tell the same. -/
structure Agrees (c : Cache) (v : View) : Prop where
  tables : Indexes c.tables v.tables TableInfo.tableName TableInfo.tableID
  users : Indexes c.users v.users UserInfo.username UserInfo.userID
  usersByID : c.usersByID = v.users
  roles : Indexes c.roles v.roles RoleInfo.roleName RoleInfo.roleID
  rolesByID : c.rolesByID = v.roles
  grants : Groups c.grants v.grants (·.roleID) GrantInfo.grantID
  grantsByKey : Indexes c.grantsByKey v.grants GrantInfo.toGrantKey GrantInfo.grantID
  nodup : ∀ roleID, ((c.grants roleID).map GrantInfo.grantID).Nodup
  userRoles : ∀ {userID roleID}, roleID ∈ c.userRoles userID ↔
    Assoc.lookup (toLex (userID,roleID)) c.userRoleAssignments≠none
  assignments : Inverse (Assoc.lookup · c.userRoleAssignments) v.userRoles
  sorted : Assoc.Sorted c.userRoleAssignments

lemma Agrees.unique {c : Cache} {v : View} (h : Agrees c v) (hk : Keyed v) : Unique v where
  tables hr hr' := h.tables.unique (hk.tables hr ▸ hr) (hk.tables hr' ▸ hr')
  users hr hr' := h.users.unique (hk.users hr ▸ hr) (hk.users hr' ▸ hr')
  roles hr hr' := h.roles.unique (hk.roles hr ▸ hr) (hk.roles hr' ▸ hr')
  grants hr hr' := h.grantsByKey.unique (hk.grants hr ▸ hr) (hk.grants hr' ▸ hr')
  userRoles hr hr' :=
    Option.some.inj (((h.assignments _ _).mpr hr).symm.trans ((h.assignments _ _).mpr hr'))

lemma agrees_newCache :
    Agrees newCache ⟨fun _ => none,fun _ => none,fun _ => none,fun _ => none,fun _ => none⟩ where
  tables _ _ := by simp [newCache]
  users _ _ := by simp [newCache]
  usersByID := rfl
  roles _ _ := by simp [newCache]
  rolesByID := rfl
  grants _ _ := by simp [newCache]
  grantsByKey _ _ := by simp [newCache]
  nodup _ := by simp [newCache]
  userRoles := by simp [newCache,Assoc.lookup]
  assignments _ _ := by simp [newCache,Assoc.lookup]
  sorted := List.Pairwise.nil

section Effects
variable {v : View}

lemma key_update {R : Type} {rows : UInt64 → Option R} {number : R → UInt64}
    (h : ∀ {id r}, rows id = some r → number r = id)
    {r x : R} {id : UInt64} (hx : Function.update rows (number r) (some r) id = some x) :
    number x = id := by
  rw [Function.update_apply] at hx
  split at hx
  · obtain rfl := Option.some.inj hx
    exact Eq.symm ‹_›
  · exact h hx

lemma some_of_update_none {R : Type} {rows : UInt64 → Option R} {x : R} {id i : UInt64}
    (hx : Function.update rows i none id = some x) : rows id = some x := by
  rw [Function.update_apply] at hx
  split at hx
  · cases hx
  · exact hx

lemma Keyed.effect (h : Keyed v) (w : Write) : Keyed (w.effect v) := by
  cases w with
  | insertTable info => exact ⟨key_update h.tables,h.users,h.roles,h.grants⟩
  | deleteTable tableID => exact ⟨fun hx => h.tables (some_of_update_none hx),h.users,h.roles,h.grants⟩
  | insertUser info => exact ⟨h.tables,key_update h.users,h.roles,h.grants⟩
  | insertRole info => exact ⟨h.tables,h.users,key_update h.roles,h.grants⟩
  | deleteRole roleID => exact ⟨h.tables,h.users,fun hx => h.roles (some_of_update_none hx),h.grants⟩
  | insertGrant info => exact ⟨h.tables,h.users,h.roles,key_update h.grants⟩
  | deleteGrant grantID => exact ⟨h.tables,h.users,h.roles,fun hx => h.grants (some_of_update_none hx)⟩
  | _ => exact ⟨h.tables,h.users,h.roles,h.grants⟩

lemma Keyed.effects (h : Keyed v) (l : List Step) : Keyed (Catalog.effects v l) := by
  induction l generalizing v with
  | nil => exact h
  | cons step l ih => exact ih (h.effect step.write)

lemma effects_deleteGrants (l : List GrantInfo) :
    effects v (l.map fun gi => ⟨none,.deleteGrant gi.grantID⟩) =
      { v with grants := fun id => if id ∈ l.map GrantInfo.grantID then none else v.grants id } := by
  induction l generalizing v with
  | nil => simp [effects]
  | cons gi l ih =>
    rw [List.map_cons,effects,List.foldl_cons,← effects,ih]
    simp only [Write.effect,View.mk.injEq,and_true,true_and]
    funext id
    by_cases h1 : id ∈ l.map GrantInfo.grantID
    · rw [if_pos h1,List.map_cons,if_pos (List.mem_cons_of_mem _ h1)]
    · by_cases h2 : id = gi.grantID <;> simp [h1,h2]

lemma effects_deleteUserRoles (l : List (UserRoleKey × UInt64)) :
    effects v (l.map fun x => ⟨none,.deleteUserRole x.2⟩) =
      { v with userRoles := fun id => if id ∈ l.map Prod.snd then none else v.userRoles id } := by
  induction l generalizing v with
  | nil => simp [effects]
  | cons x l ih =>
    rw [List.map_cons,effects,List.foldl_cons,← effects,ih]
    simp only [Write.effect,View.mk.injEq,true_and]
    funext id
    by_cases h1 : id ∈ l.map Prod.snd
    · rw [if_pos h1,List.map_cons,if_pos (List.mem_cons_of_mem _ h1)]
    · by_cases h2 : id = x.2 <;> simp [h1,h2]

end Effects

section Publish
variable {c : Cache} {v : View} {op : Op} {ch : Change}

lemma deleted_grants (ha : Agrees c v) (hk : Keyed v) (roleID : UInt64) :
    (fun id => if id ∈ (c.grants roleID).map GrantInfo.grantID then none else v.grants id) =
      fun id => (v.grants id).filter (·.roleID≠roleID) := by
  refine erased_eq_filter fun id gi hgi => ?_
  have hid := hk.grants hgi
  rw [decide_eq_false_iff_not,not_not,List.mem_map]
  constructor
  · rintro ⟨gi',hgi',rfl⟩
    obtain ⟨hrow,hr⟩ := (ha.grants roleID gi').mp hgi'
    rw [hgi,Option.some.injEq] at hrow
    exact hrow ▸ hr
  · intro hr
    exact ⟨gi,(ha.grants roleID gi).mpr ⟨hid.symm ▸ hgi,hr⟩,hid⟩

lemma deleted_userRoles (ha : Agrees c v) (roleID : UInt64) :
    (fun id => if id ∈ (c.userRoleAssignments.filter (·.1.2 = roleID)).map Prod.snd then none else
      v.userRoles id) =
      fun id => (v.userRoles id).filter (·.2≠roleID) := by
  refine erased_eq_filter fun id key hkey => ?_
  simp only [decide_eq_false_iff_not,not_not,List.mem_map,List.mem_filter,decide_eq_true_eq,
    Prod.exists,exists_eq_right]
  have hlookup : ∀ key', (key',id) ∈ c.userRoleAssignments ↔ key' = key := by
    intro key'
    rw [← Assoc.lookup_eq_some ha.sorted,ha.assignments key' id,hkey,Option.some.injEq,eq_comm]
  constructor
  · rintro ⟨key',hmem,hr⟩
    rwa [(hlookup key').mp hmem] at hr
  · intro hr
    exact ⟨key,(hlookup key).mpr rfl,hr⟩

lemma lookup_put_eq {K V : Type} [LinearOrder K] [DecidableEq K] (k : K) (x : V) (l : List (K × V)) :
    (Assoc.lookup · (Assoc.put k x l)) = Function.update (Assoc.lookup · l) k (some x) := by
  funext j
  rw [Assoc.lookup_put,Function.update_apply]
  congr

lemma lookup_erase_eq {K V : Type} [LinearOrder K] [DecidableEq K] (k : K) (l : List (K × V)) :
    (Assoc.lookup · (Assoc.erase k l)) = Function.update (Assoc.lookup · l) k none := by
  funext j
  rw [Assoc.lookup_erase,Function.update_apply]
  congr

lemma lookup_filter_eq {K V : Type} [LinearOrder K] (p : K → Bool) {l : List (K × V)}
    (hs : Assoc.Sorted l) :
    (Assoc.lookup · (l.filter fun x => p x.1)) = fun k => if p k then Assoc.lookup k l else none := by
  have hs' : Assoc.Sorted (l.filter fun x => p x.1) := hs.sublist (List.filter_sublist.map _)
  funext k
  apply Option.ext
  intro x
  simp only [Assoc.lookup_eq_some hs',List.mem_filter,Option.ite_none_right_eq_some,
    Assoc.lookup_eq_some hs,and_comm]

lemma Agrees.dropRole (ha : Agrees c v) {roleName : Bytes} {ri : RoleInfo}
    (hr : c.roles roleName = some ri) :
    Agrees (c.dropRole roleName ri.roleID) { v with
      roles := Function.update v.roles ri.roleID none
      grants := fun id => (v.grants id).filter (·.roleID≠ri.roleID)
      userRoles := fun id => (v.userRoles id).filter (·.2≠ri.roleID) } where
  tables := ha.tables
  users := ha.users
  usersByID := ha.usersByID
  roles := ha.roles.erase hr
  rolesByID := by rw [Cache.dropRole,ha.rolesByID]
  grants := ha.grants.clear
  grantsByKey key gi := by
    have h := ha.grantsByKey.filter (·.roleID≠ri.roleID) key gi
    rw [← h,Cache.dropRole]
    simp only [Option.filter_eq_some_iff,Option.ite_none_left_eq_some,decide_eq_true_eq]
    refine ⟨fun hx => ⟨hx.2,fun he => hx.1 ?_⟩,fun hx => ⟨fun he => hx.2 ?_,hx.1⟩⟩
    · rw [← he,← ((ha.grantsByKey key gi).mp hx.2).2]
    · rw [← he,← ((ha.grantsByKey key gi).mp hx.1).2]
  nodup roleID := by
    simp only [Cache.dropRole,Function.update_apply]
    split
    · exact List.nodup_nil
    · exact ha.nodup roleID
  userRoles {userID roleID} := by
    have hl := congrFun (lookup_filter_eq (·.2≠ri.roleID) ha.sorted) (toLex (userID,roleID))
    simp only [Cache.dropRole,List.mem_filter,decide_eq_true_eq,ha.userRoles]
    rw [hl]
    change _ ↔ (if decide (roleID≠ri.roleID) = true then _ else none)≠none
    by_cases h : roleID = ri.roleID <;> simp [h]
  assignments := by
    rw [Cache.dropRole]
    simp only [lookup_filter_eq (·.2≠ri.roleID) ha.sorted]
    exact ha.assignments.filter _
  sorted := ha.sorted.sublist (List.filter_sublist.map _)

lemma effects_dropRole (ha : Agrees c v) (hk : Keyed v) (roleName : Bytes) (ri : RoleInfo) :
    effects v (rowSteps c (.dropRole roleName ri)) = { v with
      roles := Function.update v.roles ri.roleID none
      grants := fun id => (v.grants id).filter (·.roleID≠ri.roleID)
      userRoles := fun id => (v.userRoles id).filter (·.2≠ri.roleID) } := by
  rw [rowSteps,effects_append,effects_append,effects_deleteGrants,effects_deleteUserRoles,
    deleted_grants ha hk,
    deleted_userRoles ha]
  rfl

theorem agrees_publish (ha : Agrees c v) (hk : Keyed v) (hm : Made c op ch)
    (hfit : ∀ l step l', rowSteps c ch = l++step::l' → step.write.Fits (effects v l)) :
    Agrees (c.publish ch) (effects v (rowSteps c ch)) := by
  cases hm with
  | createTable _ h => exact { ha with tables := ha.tables.insert h (hfit [] _ [] rfl) }
  | registerTable _ h => exact { ha with tables := ha.tables.insert h (hfit [] _ [] rfl) }
  | dropTable h => exact { ha with tables := ha.tables.erase h }
  | createUser h => exact { ha with users := ha.users.insert h (hfit [] _ [] rfl)
                                    usersByID := congrArg (Function.update · _ _) ha.usersByID }
  | createRole h => exact { ha with roles := ha.roles.insert h (hfit [] _ [] rfl)
                                    rolesByID := congrArg (Function.update · _ _) ha.rolesByID }
  | @dropRole roleName ri h =>
    rw [effects_dropRole ha hk]
    exact { ha.dropRole h with }
  | @assignRole username roleName ui ri hu hr h =>
    simp only [Cache.publish,Cache.audited,Cache.addUserRole]
    refine { ha with userRoles := ?_, assignments := ?_, sorted := Assoc.sorted_put _ _ ha.sorted }
    · intro userID roleID
      change roleID ∈ Function.update c.userRoles ui.userID (c.userRoles ui.userID++[ri.roleID]) userID ↔
        Assoc.lookup (toLex (userID,roleID))
          (Assoc.put (toLex (ui.userID,ri.roleID)) _ c.userRoleAssignments)≠none
      rw [Assoc.lookup_put,Function.update_apply]
      by_cases hid : userID = ui.userID
      · by_cases hrid : roleID = ri.roleID <;> simp [hid,hrid,ha.userRoles]
      · simp [hid,ha.userRoles]
    · change Inverse (Assoc.lookup · (Assoc.put _ _ c.userRoleAssignments)) _
      rw [lookup_put_eq]
      exact ha.assignments.insert h (hfit [] _ [] rfl)
  | @revokeRole username roleName ui ri urID hu hr h =>
    simp only [Cache.publish,Cache.audited]
    refine { ha with userRoles := ?_, assignments := ?_, sorted := Assoc.sorted_erase _ ha.sorted }
    · intro userID roleID
      change roleID ∈ Function.update c.userRoles ui.userID
        ((c.userRoles ui.userID).filter (·≠ri.roleID)) userID ↔
        Assoc.lookup (toLex (userID,roleID))
          (Assoc.erase (toLex (ui.userID,ri.roleID)) c.userRoleAssignments)≠none
      rw [Assoc.lookup_erase,Function.update_apply]
      by_cases hid : userID = ui.userID
      · by_cases hrid : roleID = ri.roleID <;> simp [hid,hrid,ha.userRoles]
      · simp [hid,ha.userRoles]
    · change Inverse (Assoc.lookup · (Assoc.erase _ c.userRoleAssignments)) _
      rw [lookup_erase_eq]
      exact ha.assignments.erase h
  | @grant roleName tableName action ri tableID a hact hr ht h =>
    have hnew := hfit [] _ [] rfl
    simp only [Cache.publish,Cache.audited,Cache.addGrant]
    refine { ha with
      grants := ha.grants.insert hnew, grantsByKey := ha.grantsByKey.insert h hnew, nodup := ?_ }
    intro roleID
    change ((Function.update c.grants ri.roleID
      (c.grants ri.roleID++[⟨⟨ri.roleID,tableID,a⟩,c.nextGrantID⟩]) roleID).map
      GrantInfo.grantID).Nodup
    rw [Function.update_apply]
    split
    · rw [List.map_append]
      refine (ha.nodup ri.roleID).append (List.nodup_singleton _) ?_
      intro id hid hid'
      obtain ⟨gi,hgi,rfl⟩ := List.mem_map.mp hid
      have hrow := ((ha.grants ri.roleID gi).mp hgi).1
      rw [show gi.grantID = c.nextGrantID by simpa using hid'] at hrow
      exact nomatch hrow.symm.trans hnew
    · exact ha.nodup roleID
  | @revoke roleName tableName action ri tableID a gi hact hr ht h =>
    obtain ⟨hrow,hkey⟩ := (ha.grantsByKey _ _).mp h
    refine { ha with grants := ?_, grantsByKey := ha.grantsByKey.erase h, nodup := ?_ }
    · have hrole : gi.roleID = ri.roleID := congrArg GrantKey.roleID hkey
      have herase := ha.grants.erase hrow
      simp only [hrole] at herase
      exact herase
    · intro roleID
      change ((Function.update c.grants ri.roleID
        ((c.grants ri.roleID).filter (·.grantID≠gi.grantID)) roleID).map
        GrantInfo.grantID).Nodup
      rw [Function.update_apply]
      split
      · exact (ha.nodup ri.roleID).sublist (List.filter_sublist.map _)
      · exact ha.nodup roleID

lemma update_some_ne_none {R : Type} {rows : UInt64 → Option R} {r : R} {i id : UInt64}
    (h : rows id≠none) :
    Function.update rows i (some r) id≠none := by
  rw [Function.update_apply]
  split
  · exact Option.some_ne_none r
  · exact h

theorem linked_publish (ha : Agrees c v) (hk : Keyed v) (hl : Linked v) (hm : Made c op ch) :
    Linked (effects v (rowSteps c ch)) := by
  cases hm with
  | createUser h => exact ⟨hl.grants,fun hx => update_some_ne_none (hl.users hx),hl.roles⟩
  | createRole h =>
    exact ⟨fun hx => update_some_ne_none (hl.grants hx),hl.users,fun hx =>
      update_some_ne_none (hl.roles hx)⟩
  | @dropRole roleName ri h =>
    rw [effects_dropRole ha hk]
    have hkeep : ∀ {roleID}, decide (roleID≠ri.roleID) = true → v.roles roleID≠none →
        Function.update v.roles ri.roleID none roleID≠none := by
      intro roleID hne h
      rwa [Function.update_of_ne (of_decide_eq_true hne)]
    refine ⟨?_,?_,?_⟩ <;> intro id x hx <;> obtain ⟨hx,hne⟩ := Option.filter_eq_some_iff.mp hx
    · exact hkeep hne (hl.grants hx)
    · exact hl.users hx
    · exact hkeep hne (hl.roles hx)
  | @assignRole username roleName ui ri hu hr h =>
    have hui := ((ha.users _ _).mp hu).1
    have hri := ((ha.roles _ _).mp hr).1
    have hrow : ∀ {id key}, (effects v
      (rowSteps c (.assignRole (toLex (ui.userID,ri.roleID)) c.nextUserRoleID))).userRoles id =
        some key → key = toLex (ui.userID,ri.roleID) ∨ v.userRoles id = some key := by
      intro id key hx
      change Function.update v.userRoles c.nextUserRoleID _ id = _ at hx
      rw [Function.update_apply] at hx
      split at hx
      · exact .inl (Option.some.inj hx).symm
      · exact .inr hx
    refine ⟨hl.grants,fun hx => ?_,fun hx => ?_⟩
    · obtain rfl | hx := hrow hx
      · exact fun hn => nomatch hui.symm.trans hn
      · exact hl.users hx
    · obtain rfl | hx := hrow hx
      · exact fun hn => nomatch hri.symm.trans hn
      · exact hl.roles hx
  | revokeRole hu hr h =>
    exact ⟨hl.grants,fun hx => hl.users (some_of_update_none hx),fun hx =>
      hl.roles (some_of_update_none hx)⟩
  | @grant roleName tableName action ri tableID a hact hr ht h =>
    refine ⟨fun {id gi} hx => ?_,hl.users,hl.roles⟩
    change Function.update v.grants c.nextGrantID _ id = _ at hx
    rw [Function.update_apply] at hx
    split at hx
    · obtain rfl := Option.some.inj hx
      exact fun hn => nomatch ((ha.roles _ _).mp hr).1.symm.trans hn
    · exact hl.grants hx
  | revoke hact hr ht h => exact ⟨fun hx => hl.grants (some_of_update_none hx),hl.users,hl.roles⟩
  | _ => exact ⟨hl.grants,hl.users,hl.roles⟩

/-- The maps and the rows at rest. -/
structure Sound (c : Cache) (v : View) : Prop where
  agrees : Agrees c v
  keyed : Keyed v
  linked : Linked v

lemma sound_new : Sound newCache SysHeap.empty.view :=
  ⟨agrees_newCache,⟨nofun,nofun,nofun,nofun⟩,⟨nofun,nofun,nofun⟩⟩

lemma effects_steps {env : Env} {tx : UInt64} {t : Ticket} :
    effects v (steps env tx c t ch) = effects v (rowSteps c ch) := by
  rw [steps,effects_append,effects_append]
  cases ch <;> rfl

lemma fits_rowSteps {env : Env} {tx : UInt64} {t : Ticket} {faults : ℕ → Option SQL.Err}
    {h h' : SysHeap} {l l' : List Step}
    {step : Step} (hg : allGo tx faults 0 (steps env tx c t ch) h = some h')
    (hl : rowSteps c ch = l++step::l') :
    step.write.Fits (effects h.view l) := by
  have hsplit : steps env tx c t ch =
    (updateMeta::l)++step::(l'++historySteps env c ch++[auditLog env tx c t]) := by
    simp [steps,hl]
  rw [hsplit] at hg
  have hfits := fits_of_allGo hg
  exact hfits

theorem Sound.publish {deps : Deps} {env : Env} {tx : UInt64} {t : Ticket}
    {faults : ℕ → Option SQL.Err} {h h' : SysHeap}
    (hs : Sound c h.view) (ht : Checked c op t) (hch : change deps env c t = .ok ch)
    (hg : allGo tx faults 0 (steps env tx c t ch) h = some h') : Sound (c.publish ch) h'.view := by
  have hm := made_of_checked ht hch
  rw [view_of_allGo hg,effects_steps]
  exact ⟨agrees_publish hs.agrees hs.keyed hm fun l step l' hl => fits_rowSteps hg hl,hs.keyed.effects _,
    linked_publish hs.agrees hs.keyed hs.linked hm⟩

end Publish
end Plomvix.Catalog
