import Plomvix.Lib.Fallible
import Plomvix.Catalog.Model

/-! What a call can do: the rows that its heap writes leave, and the change that it publishes. -/
namespace Plomvix.Catalog
open Lib Fallible

/-- The rows of the system tables that the cache is made of. -/
structure View where
  tables : UInt64 → Option TableInfo
  users : UInt64 → Option UserInfo
  roles : UInt64 → Option RoleInfo
  grants : UInt64 → Option GrantInfo
  userRoles : UInt64 → Option UserRoleKey

/-- The live rows of the system tables. -/
def SysHeap.view (h : SysHeap) : View :=
  ⟨h.tables.live,h.users.live,h.roles.live,h.grants.live,h.userRoles.live⟩

namespace Write

/-- What a write does to the rows. -/
def effect (v : View) : Write → View
  | .insertTable info => { v with tables := Function.update v.tables info.tableID (some info) }
  | .deleteTable tableID => { v with tables := Function.update v.tables tableID none }
  | .insertUser info => { v with users := Function.update v.users info.userID (some info) }
  | .insertRole info => { v with roles := Function.update v.roles info.roleID (some info) }
  | .deleteRole roleID => { v with roles := Function.update v.roles roleID none }
  | .insertGrant info => { v with grants := Function.update v.grants info.grantID (some info) }
  | .deleteGrant grantID => { v with grants := Function.update v.grants grantID none }
  | .insertUserRole urID key => { v with userRoles := Function.update v.userRoles urID (some key) }
  | .deleteUserRole urID => { v with userRoles := Function.update v.userRoles urID none }
  | _ => v

/-- The row is new, or it is there to be deleted. -/
def Fits (v : View) : Write → Prop
  | .insertTable info => v.tables info.tableID = none
  | .deleteTable tableID => v.tables tableID≠none
  | .insertUser info => v.users info.userID = none
  | .insertRole info => v.roles info.roleID = none
  | .deleteRole roleID => v.roles roleID≠none
  | .insertGrant info => v.grants info.grantID = none
  | .deleteGrant grantID => v.grants grantID≠none
  | .insertUserRole urID _ => v.userRoles urID = none
  | .deleteUserRole urID => v.userRoles urID≠none
  | _ => True

end Write

section Rows
variable {K R : Type} [LinearOrder K] {tx : UInt64} {fault : Option SQL.Err} {present : Bool}
  {e : SQL.Err} {k : K}
  {row : Option R} {t t' : VersionTable K UInt64 R}

lemma writeRow_ok : writeRow tx fault present e k row t = .ok t' ↔
    tx≠0 ∧ fault = none ∧ (t.live k).isSome = present ∧ ∃ h :
    (t.chain k).Before tx, t' = t.push k tx row h := by
  unfold writeRow
  split
  · rename_i h0
    simp [h0]
  · rename_i h0
    split
    · rename_i hb
      have hv : (t.chain k).visible tx = t.live k := Chain.visible_eq_newest fun x hx => (hb x hx).le
      rw [hv]
      split
      · rename_i hp
        simp [hp]
      · rename_i hp
        cases fault with
        | some err => simp
        | none =>
          have hp := not_not.mp hp
          simp only [Except.ok.injEq,h0,hp,ne_eq,not_false_eq_true,true_and,hb,exists_true_left,eq_comm]
    · rename_i hb
      simp [hb]

lemma live_of_writeRow [DecidableEq K] (h : writeRow tx fault present e k row t = .ok t') :
    t'.live = Function.update t.live k row := by
  obtain ⟨-,-,-,hb,rfl⟩ := writeRow_ok.mp h
  funext j
  rw [VersionTable.live_push,Function.update_apply]
  congr

lemma upTo_of_writeRow {w : UInt64} (h : writeRow tx fault present e k row t = .ok t')
    (ht : t.UpTo w) (hw : tx ≤ w) :
    t'.UpTo w := by
  obtain ⟨-,-,-,hb,rfl⟩ := writeRow_ok.mp h
  exact ht.push hw hb

end Rows

section Writes
variable {tx : UInt64} {fault : Option SQL.Err} {h h' : SysHeap} {w : Write}

lemma Except.map_ok {ε α β : Type} {f : α → β} {x : Except ε α} {b : β} :
    x.map f = .ok b ↔ ∃ a, x = .ok a ∧ f a = b := by
  cases x <;> simp [Except.map]

lemma Write.apply_ok (hw : w.apply tx fault h = .ok h') : w.Fits h.view ∧ h'.view = w.effect h.view := by
  cases w <;> simp only [Write.apply,insertRow,updateRow,deleteRow] at hw <;> obtain ⟨t,ht,rfl⟩ :=
    Except.map_ok.mp hw <;>
    have hlive := live_of_writeRow ht <;> obtain ⟨-,-,hp,-⟩ := writeRow_ok.mp ht <;>
    simp_all [SysHeap.view,Write.effect,Write.Fits,Option.isSome_iff_ne_none]

end Writes

def effects (v : View) (l : List Step) : View := l.foldl (fun v step => step.write.effect v) v

/-- The heap after the writes, if all of them go through. -/
def allGo (tx : UInt64) (faults : ℕ → Option SQL.Err) : ℕ → List Step → SysHeap → Option SysHeap
  | _,[],h => some h
  | n,step::rest,h =>
    match step.write.apply tx (faults n) h with
    | .error _ => none
    | .ok h => allGo tx faults (n+1) rest h

section Runs
variable {tx : UInt64}
  {faults : ℕ → Option SQL.Err} {n : ℕ} {l l' : List Step} {step : Step} {h h' : SysHeap} {v : View}

lemma effects_append : effects v (l++l') = effects (effects v l) l' := List.foldl_append ..

lemma allGo_cons (hg : allGo tx faults n (step::l) h = some h') :
    ∃ h1, step.write.apply tx (faults n) h = .ok h1 ∧ allGo tx faults (n+1) l h1 = some h' := by
  rw [allGo] at hg
  split at hg
  · cases hg
  · rename_i h1 ha
    exact ⟨h1,ha,hg⟩

lemma runSteps_of_allGo (hg : allGo tx faults n l h = some h') :
    runSteps tx faults n l h = (.ok (),h') := by
  induction l generalizing n h with
  | nil =>
    obtain rfl := Option.some.inj hg
    rfl
  | cons step l ih =>
    obtain ⟨h1,ha,hg⟩ := allGo_cons hg
    rw [runSteps,ha]
    exact ih hg

lemma allGo_append : allGo tx faults n (l++l') h =
      (allGo tx faults n l h).bind (allGo tx faults (n+l.length) l') := by
  induction l generalizing n h with
  | nil => rfl
  | cons step l ih =>
    rw [List.cons_append,allGo,allGo]
    cases step.write.apply tx (faults n) h with
    | error e => rfl
    | ok h1 =>
      simp only
      rw [ih,List.length_cons]
      congr 2
      omega

lemma view_of_allGo (hg : allGo tx faults n l h = some h') : h'.view = effects h.view l := by
  induction l generalizing n h with
  | nil =>
    obtain rfl := Option.some.inj hg
    rfl
  | cons step l ih =>
    obtain ⟨h1,ha,hg⟩ := allGo_cons hg
    rw [ih hg,(Write.apply_ok ha).2]
    rfl

lemma fits_of_allGo (hg : allGo tx faults n (l++step::l') h = some h') :
    step.write.Fits (effects h.view l) := by
  rw [allGo_append] at hg
  obtain ⟨h1,h1g,hg⟩ := Option.bind_eq_some_iff.mp hg
  obtain ⟨h2,ha,-⟩ := allGo_cons hg
  rw [← view_of_allGo h1g]
  exact (Write.apply_ok ha).1

end Runs

/-- What the checks of an operation find in the maps in memory. -/
inductive Checked (c : Cache) : Op → Ticket → Prop
  | createTable {engineName tableName schemaJSON} (hname : tableName≠[])
      (h : c.tables tableName = none)
      (hp : tableName ∉ c.pendingTables) : Checked c (.createTable engineName tableName schemaJSON)
        (.createTable ⟨c.nextTableID,engineName,tableName,schemaJSON,1⟩)
  | registerTable {tableID engineName tableName schemaPayload} (hname : tableName≠[])
      (h : c.tables tableName = none) (hp : tableName ∉ c.pendingTables) :
      Checked c (.registerTable tableID engineName tableName schemaPayload)
        (.registerTable ⟨tableID,engineName,tableName,schemaPayload,1⟩)
  | dropTable {tableName info} (h : c.tables tableName = some info)
      (hp : tableName ∉ c.pendingTables) :
      Checked c (.dropTable tableName) (.dropTable tableName info)
  | createUser {username password isAdmin} (h : c.users username = none)
      (hp : username ∉ c.pendingUsers) :
      Checked c (.createUser username password isAdmin) (.createUser username password isAdmin)
  | createRole {roleName} (h : c.roles roleName = none) :
      Checked c (.createRole roleName) (.createRole roleName)
  | dropRole {roleName info} (h : c.roles roleName = some info) :
      Checked c (.dropRole roleName) (.dropRole roleName info)
  | assignRole {username roleName ui ri} (hu : c.users username = some ui)
      (hr : c.roles roleName = some ri)
      (h : Assoc.lookup (toLex (ui.userID,ri.roleID)) c.userRoleAssignments = none) :
      Checked c (.assignRole username roleName)
        (.assignRole username roleName (toLex (ui.userID,ri.roleID)))
  | revokeRole {username roleName ui ri urID} (hu : c.users username = some ui)
      (hr : c.roles roleName = some ri)
      (h : Assoc.lookup (toLex (ui.userID,ri.roleID)) c.userRoleAssignments = some urID) :
      Checked c (.revokeRole username roleName)
        (.revokeRole username roleName (toLex (ui.userID,ri.roleID)) urID)
  | grant {roleName tableName action ri tableID a} (ha : parseAction action = some a)
      (hr : c.roles roleName = some ri) (ht : grantTable c tableName = .ok tableID)
      (h : c.grantsByKey ⟨ri.roleID,tableID,a⟩ = none) :
      Checked c (.grant roleName tableName action) (.grant roleName tableName ⟨ri.roleID,tableID,a⟩)
  | revoke {roleName tableName action ri tableID a gi} (ha : parseAction action = some a)
      (hr : c.roles roleName = some ri) (ht : grantTable c tableName = .ok tableID)
      (h : c.grantsByKey ⟨ri.roleID,tableID,a⟩ = some gi) :
      Checked c (.revoke roleName tableName action) (.revoke roleName tableName ⟨ri.roleID,tableID,a⟩ gi)

/-- What an operation that runs alone writes and publishes. -/
inductive Made (c : Cache) : Op → Change → Prop
  | createTable {engineName tableName schemaJSON} (hname : tableName≠[])
      (h : c.tables tableName = none) :
      Made c (.createTable engineName tableName schemaJSON)
        (.createTable ⟨c.nextTableID,engineName,tableName,schemaJSON,1⟩)
  | registerTable {tableID engineName tableName schemaPayload} (hname : tableName≠[])
      (h : c.tables tableName = none) : Made c (.registerTable tableID engineName tableName schemaPayload)
        (.registerTable ⟨tableID,engineName,tableName,schemaPayload,1⟩)
  | dropTable {tableName info} (h : c.tables tableName = some info) :
      Made c (.dropTable tableName) (.dropTable tableName info)
  | createUser {username password hash isAdmin} (h : c.users username = none) :
      Made c (.createUser username password isAdmin) (.createUser ⟨c.nextUserID,username,hash,isAdmin⟩)
  | createRole {roleName} (h : c.roles roleName = none) :
      Made c (.createRole roleName) (.createRole ⟨c.nextRoleID,roleName⟩)
  | dropRole {roleName info} (h : c.roles roleName = some info) :
      Made c (.dropRole roleName) (.dropRole roleName info)
  | assignRole {username roleName ui ri} (hu : c.users username = some ui)
      (hr : c.roles roleName = some ri)
      (h : Assoc.lookup (toLex (ui.userID,ri.roleID)) c.userRoleAssignments = none) :
      Made c (.assignRole username roleName) (.assignRole (toLex (ui.userID,ri.roleID)) c.nextUserRoleID)
  | revokeRole {username roleName ui ri urID} (hu : c.users username = some ui)
      (hr : c.roles roleName = some ri)
      (h : Assoc.lookup (toLex (ui.userID,ri.roleID)) c.userRoleAssignments = some urID) :
      Made c (.revokeRole username roleName) (.revokeRole (toLex (ui.userID,ri.roleID)) urID)
  | grant {roleName tableName action ri tableID a} (ha : parseAction action = some a)
      (hr : c.roles roleName = some ri) (ht : grantTable c tableName = .ok tableID)
      (h : c.grantsByKey ⟨ri.roleID,tableID,a⟩ = none) :
      Made c (.grant roleName tableName action) (.grant ⟨⟨ri.roleID,tableID,a⟩,c.nextGrantID⟩)
  | revoke {roleName tableName action ri tableID a gi} (ha : parseAction action = some a)
      (hr : c.roles roleName = some ri) (ht : grantTable c tableName = .ok tableID)
      (h : c.grantsByKey ⟨ri.roleID,tableID,a⟩ = some gi) :
      Made c (.revoke roleName tableName action) (.revoke ⟨ri.roleID,tableID,a⟩ gi)

section Checks
variable {deps : Deps} {env : Env} {op : Op} {s : State} {c : Cache} {t : Ticket} {ch : Change}

lemma require_eq_error {p : Prop} [Decidable p] {e e' : Err} : require p e = .error e' ↔ ¬p ∧ e = e' := by
  by_cases h : p <;> simp [require,h]

lemma found_eq_error {α : Type} {o : Option α} {e e' : Err} :
    found o e = .error e' ↔ o = none ∧ e = e' := by
  cases o <;> simp [found]

lemma require_eq_ok {p : Prop} [Decidable p] {e : Err} {u : Unit} : require p e = .ok u ↔ p := by
  by_cases h : p <;> simp [require,h]

lemma found_eq_ok {α : Type} {o : Option α} {e : Err} {a : α} : found o e = .ok a ↔ o = some a := by
  cases o <;> simp [found]

lemma userRole_eq_ok {username roleName : Bytes} {key : UserRoleKey} :
    userRole c username roleName = .ok key ↔
    ∃ ui, c.users username = some ui ∧ ∃ ri, c.roles roleName = some ri ∧
      toLex (ui.userID,ri.roleID) = key := by
  simp only [userRole,bind_eq_ok,found_eq_ok,pure,Except.pure,Except.ok.injEq]

lemma checked_of_check (h : check deps s op = .ok t) : ∃ c, s.cache = some c ∧ Checked c op t := by
  cases op <;> simp only [check,bind_eq_ok,require_eq_ok,found_eq_ok,userRole_eq_ok,State.opened] at h
  case createTable engineName tableName schemaJSON =>
    obtain ⟨-,⟨-,hname⟩,c,hc,validateSchema,-,h⟩ := h
    cases hv : validateSchema schemaJSON with
    | some text =>
      rw [hv] at h
      cases h
    | none =>
      rw [hv] at h
      simp only [bind_eq_ok,require_eq_ok] at h
      obtain ⟨-,hn,-,hp,h⟩ := h
      cases h
      exact ⟨c,hc,.createTable hname hn hp⟩
  case registerTable =>
    obtain ⟨-,⟨-,hname⟩,c,hc,-,hn,-,hp,h⟩ := h
    cases h
    exact ⟨c,hc,.registerTable hname hn hp⟩
  case dropTable =>
    obtain ⟨-,-,c,hc,info,hn,-,hp,h⟩ := h
    cases h
    exact ⟨c,hc,.dropTable hn hp⟩
  case createUser =>
    obtain ⟨-,-,c,hc,-,hn,-,hp,h⟩ := h
    cases h
    exact ⟨c,hc,.createUser hn hp⟩
  case createRole =>
    obtain ⟨-,-,c,hc,-,hn,h⟩ := h
    cases h
    exact ⟨c,hc,.createRole hn⟩
  case dropRole =>
    obtain ⟨-,-,c,hc,info,hn,h⟩ := h
    cases h
    exact ⟨c,hc,.dropRole hn⟩
  case assignRole =>
    obtain ⟨-,-,c,hc,key,⟨ui,hu,ri,hr,rfl⟩,-,hn,h⟩ := h
    cases h
    exact ⟨c,hc,.assignRole hu hr hn⟩
  case revokeRole =>
    obtain ⟨-,-,c,hc,key,⟨ui,hu,ri,hr,rfl⟩,urID,hn,h⟩ := h
    cases h
    exact ⟨c,hc,.revokeRole hu hr hn⟩
  case grant =>
    obtain ⟨-,-,a,ha,c,hc,ri,hr,tableID,ht,-,hn,h⟩ := h
    cases h
    exact ⟨c,hc,.grant ha hr ht hn⟩
  case revoke =>
    obtain ⟨-,-,a,ha,c,hc,ri,hr,tableID,ht,gi,hn,h⟩ := h
    cases h
    exact ⟨c,hc,.revoke ha hr ht hn⟩

lemma made_of_checked (h : Checked c op t) (hch : change deps env c t = .ok ch) : Made c op ch := by
  cases h with
  | createTable hname h =>
    cases hch
    exact .createTable hname h
  | registerTable hname h =>
    cases hch
    exact .registerTable hname h
  | dropTable h =>
    cases hch
    exact .dropTable h
  | createUser h =>
    obtain ⟨hash,-,rfl⟩ := Except.map_ok.mp hch
    exact .createUser h
  | createRole h =>
    cases hch
    exact .createRole h
  | dropRole h =>
    cases hch
    exact .dropRole h
  | assignRole hu hr h =>
    cases hch
    exact .assignRole hu hr h
  | revokeRole hu hr h =>
    cases hch
    exact .revokeRole hu hr h
  | grant ha hr ht h =>
    cases hch
    exact .grant ha hr ht h
  | revoke ha hr ht h =>
    cases hch
    exact .revoke ha hr ht h

lemma filter_cons_self {x : Bytes} {l : List Bytes} (h : x ∉ l) : (x::l).filter (· ∉ [x]) = l := by
  rw [List.filter_cons_of_neg (by simp),List.filter_eq_self]
  intro y hy
  simp only [List.mem_singleton,decide_eq_true_eq]
  rintro rfl
  exact h hy

lemma release_pend (h : Checked c op t) (ch : Change) : ((c.pend t).publish ch).release t = c.publish ch ∧
    (c.pend t).release t = c := by
  have hpending : (c.pend t).pendingTables.filter (· ∉ t.pendingTables) = c.pendingTables ∧
      (c.pend t).pendingUsers.filter (· ∉ t.pendingUsers) = c.pendingUsers := by
    cases h with
    | createTable _ _ hp => exact ⟨filter_cons_self hp,by simp [Cache.pend,Ticket.pendingUsers]⟩
    | registerTable _ _ hp => exact ⟨filter_cons_self hp,by simp [Cache.pend,Ticket.pendingUsers]⟩
    | dropTable _ hp => exact ⟨filter_cons_self hp,by simp [Cache.pend,Ticket.pendingUsers]⟩
    | createUser _ hp => exact ⟨by simp [Cache.pend,Ticket.pendingTables],filter_cons_self hp⟩
    | _ => simp [Cache.pend,Ticket.pendingTables,Ticket.pendingUsers]
  constructor
  · have hpublish : ((c.pend t).publish ch).release t =
        { c.publish ch with
          pendingTables := (c.pend t).pendingTables.filter (· ∉ t.pendingTables)
          pendingUsers := (c.pend t).pendingUsers.filter (· ∉ t.pendingUsers) } := by cases ch <;> rfl
    rw [hpublish,hpending.1,hpending.2]
    cases ch <;> rfl
  · rw [Cache.release,hpending.1,hpending.2]
    rfl

end Checks

/-- How an operation ends: refused by the checks, without a hash, with a heap write that failed, or
done. -/
inductive Outcome (deps : Deps) (env : Env) (op : Op) (s : State) : Except Err Unit × State → Prop
  | refused {e} (h : check deps s op = .error e) : Outcome deps env op s (.error e,s)
  | unhashed {c t e} (hc : s.cache = some c)
      (hk : check deps s op = .ok t) (ht : Checked c op t)
      (h : change deps env c t = .error e) :
        Outcome deps env op s (.error e,{ s with nextTxID := s.nextTxID+1 })
  | failed {c t ch e h} (hc : s.cache = some c)
      (hk : check deps s op = .ok t) (ht : Checked c op t) (hch : change deps env c t = .ok ch)
      (hrun : runSteps (s.nextTxID+1) env.faults 0 (steps env (s.nextTxID+1) c t ch) s.heap =
        (.error e,h)) :
      Outcome deps env op s (.error e,{ s with heap := h, nextTxID := s.nextTxID+1 })
  | done {c t ch h} (hc : s.cache = some c)
      (hk : check deps s op = .ok t) (ht : Checked c op t) (hch : change deps env c t = .ok ch)
      (hrun : runSteps (s.nextTxID+1) env.faults 0 (steps env (s.nextTxID+1) c t ch) s.heap = (.ok (),h)) :
      Outcome deps env op s (.ok (),⟨some (c.publish ch),h,s.nextTxID+1,s.schemaVersion+ch.versions⟩)

theorem call_outcome (deps : Deps) (env : Env) (op : Op) (s : State) :
    Outcome deps env op s (call deps env op s) := by
  rw [call,reserve]
  cases hk : check deps s op with
  | error e => exact .refused hk
  | ok t =>
    obtain ⟨c,hc,ht⟩ := checked_of_check hk
    have hch : change deps env (c.pend t) t = change deps env c t := by cases t <;> rfl
    have hsteps : ∀ ch, steps env (s.nextTxID+1) (c.pend t) t ch = steps env (s.nextTxID+1) c t ch := by
      intro ch
      cases ch <;> rfl
    simp only [writeHeap,hc,Option.map_some,hch,hsteps]
    cases hx : change deps env c t with
    | error e =>
      have hend := (release_pend ht (.createRole ⟨0,[]⟩)).2
      simp only [State.release,Option.map_some,hend,← hc]
      exact .unhashed hc hk ht hx
    | ok ch =>
      simp only
      rcases hr : runSteps (s.nextTxID+1) env.faults 0 (steps env (s.nextTxID+1) c t ch) s.heap with ⟨r,h⟩
      have hend := release_pend ht ch
      cases r with
      | error e =>
        simp only [State.release,Option.map_some,hend.2,← hc]
        exact .failed hc hk ht hx hr
      | ok u =>
        simp only [State.publish,State.release,Option.map_some,hend.1]
        exact .done hc hk ht hx hr

/-- No heap write of the call fails, also none of those whose error would be ignored. -/
def writesSucceed (deps : Deps) (env : Env) (op : Op) (s : State) : Bool :=
  match s.cache,check deps s op with
  | some c,.ok t =>
    match change deps env c t with
    | .ok ch => (allGo (s.nextTxID+1) env.faults 0 (steps env (s.nextTxID+1) c t ch) s.heap).isSome
    | .error _ => true
  | _,_ => true

lemma outcome_of_writesSucceed {deps : Deps} {env : Env} {op : Op} {s : State}
    (hw : writesSucceed deps env op s = true) :
    (∃ e n, call deps env op s = (.error e,{ s with nextTxID := n })) ∨
      ∃ c t ch h, s.cache = some c ∧ Checked c op t ∧ change deps env c t = .ok ch ∧
        allGo (s.nextTxID+1) env.faults 0 (steps env (s.nextTxID+1) c t ch) s.heap = some h ∧
        call deps env op s =
          (.ok (),⟨some (c.publish ch),h,s.nextTxID+1,s.schemaVersion+ch.versions⟩) := by
  have ho := call_outcome deps env op s
  generalize call deps env op s = r at ho
  have hgo : ∀ {c t ch}, s.cache = some c → check deps s op = .ok t → change deps env c t = .ok ch →
      ∃ h, allGo (s.nextTxID+1) env.faults 0 (steps env (s.nextTxID+1) c t ch) s.heap = some h := by
    intro c t ch hc hk hch
    simp only [writesSucceed,hc,hk,hch] at hw
    exact Option.isSome_iff_exists.mp hw
  cases ho with
  | @refused e h => exact .inl ⟨e,s.nextTxID,rfl⟩
  | @unhashed c t e => exact .inl ⟨e,s.nextTxID+1,rfl⟩
  | failed hc hk ht hch hrun =>
    obtain ⟨h,hg⟩ := hgo hc hk hch
    exact nomatch hrun.symm.trans (runSteps_of_allGo hg)
  | done hc hk ht hch hrun =>
    obtain ⟨h,hg⟩ := hgo hc hk hch
    obtain rfl := (Prod.mk.inj (hrun.symm.trans (runSteps_of_allGo hg))).2
    exact .inr ⟨_,_,_,_,hc,ht,hch,hg,rfl⟩

end Plomvix.Catalog
