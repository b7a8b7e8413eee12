import Plomvix.Catalog.Reload

/-! Runs of a catalog with restarts. No version of a row is ahead of the counter of the
transactions, and no number of a row is ahead of its own counter. -/
namespace Plomvix.Catalog
open Lib
open Engine (ascii)

section Counters
variable {ids : List UInt64} {next n id : UInt64}

lemma succ_le (h : id < n) : id+1 ≤ n := by
  have hlt := UInt64.lt_iff_toNat_lt.mp h
  have hn := n.toNat_lt
  rw [UInt64.le_iff_toNat_le,toNat_succ (by omega)]
  exact hlt

lemma succ_ne_zero_of_lt (h : id < n) : id+1≠0 := by
  intro h0
  have hlt := UInt64.lt_iff_toNat_lt.mp h
  have hn := n.toNat_lt
  have hs : (id+1).toNat = id.toNat+1 := toNat_succ (by omega)
  rw [h0] at hs
  simp at hs

variable (next) in
lemma lt_above (h : id+1≠0) : next ≤ above next id ∧ id < above next id := by
  have hid := lt_succ (toNat_succ_lt h)
  rw [above]
  split
  · exact ⟨‹next ≤ id›.trans hid.le,hid⟩
  · exact ⟨le_rfl,not_le.mp ‹_›⟩

lemma foldl_above_le (hnext : next ≤ n) (hids : ∀ id ∈ ids, id < n) : ids.foldl above next ≤ n := by
  induction ids generalizing next with
  | nil => exact hnext
  | cons id ids ih =>
    refine ih ?_ fun i hi => hids i (List.mem_cons_of_mem _ hi)
    rw [above]
    split
    · exact succ_le (hids id (List.mem_cons_self ..))
    · exact hnext

variable (next) in
lemma lt_foldl_above (hids : ∀ id ∈ ids, id+1≠0) :
    next ≤ ids.foldl above next ∧ ∀ id ∈ ids, id < ids.foldl above next := by
  induction ids generalizing next with
  | nil => exact ⟨le_rfl,nofun⟩
  | cons i ids ih =>
    obtain ⟨hle,hlt⟩ := lt_above next (hids i (List.mem_cons_self ..))
    obtain ⟨hle',hlt'⟩ := ih (above next i) fun j hj => hids j (List.mem_cons_of_mem _ hj)
    refine ⟨hle.trans hle',fun j hj => ?_⟩
    obtain rfl | hj := List.mem_cons.mp hj
    exacts [hlt.trans_le hle',hlt' j hj]

/-- The rows have numbers below `next`, which is not ahead of the transaction `n`. -/
structure Counts {R : Type} (rows : UInt64 → Option R) (next n : UInt64) : Prop where
  pos : 1 ≤ next
  le : next ≤ n
  lt : ∀ {id r}, rows id = some r → id < next

namespace Counts
variable {R : Type} {rows rows' : UInt64 → Option R}

lemma keep (h : Counts rows next n) (hn : n+1≠0)
    (hrows : ∀ {id r}, rows' id = some r → ∃ r', rows id = some r') :
    Counts rows' next (n+1) where
  pos := h.pos
  le := h.le.trans (lt_succ (toNat_succ_lt hn)).le
  lt hr := by
    obtain ⟨r',hr'⟩ := hrows hr
    exact h.lt hr'

lemma next_lt (h : Counts rows next n) (hn : n+1≠0) : next < next+1 := by
  have hle := UInt64.le_iff_toNat_le.mp h.le
  have hlt := toNat_succ_lt hn
  exact lt_succ (by omega)

lemma insert (h : Counts rows next n) (hn : n+1≠0) (r : R) :
    Counts (Function.update rows next (some r)) (next+1) (n+1) where
  pos := h.pos.trans (h.next_lt hn).le
  le := succ_le (h.le.trans_lt (lt_succ (toNat_succ_lt hn)))
  lt {id x} hx := by
    rw [Function.update_apply] at hx
    split at hx
    · exact ‹id = next› ▸ h.next_lt hn
    · exact (h.lt hx).trans (h.next_lt hn)

lemma free (h : Counts rows next n) : rows next = none := by
  by_contra hne
  obtain ⟨r,hr⟩ := Option.ne_none_iff_exists'.mp hne
  exact lt_irrefl _ (h.lt hr)

lemma load (h : Counts rows next n) (hids : ∀ id, id ∈ ids ↔ rows id≠none) :
    Counts rows (ids.foldl above 1) n := by
  have hlt : ∀ id ∈ ids, id < next := by
    intro id hid
    obtain ⟨r,hr⟩ := Option.ne_none_iff_exists'.mp ((hids id).mp hid)
    exact h.lt hr
  obtain ⟨hpos,hbelow⟩ := lt_foldl_above 1 fun id hid => succ_ne_zero_of_lt (hlt id hid)
  refine ⟨hpos,(foldl_above_le h.pos hlt).trans h.le,fun hr => hbelow _ ?_⟩
  exact (hids _).mpr fun hn => nomatch hr.symm.trans hn

end Counts

/-- A row is added under the number of the counter, or none is. -/
def Grows {R : Type} (rows rows' : UInt64 → Option R) (next next' : UInt64) : Prop :=
  (next' = next ∧ ∀ {id r}, rows' id = some r → rows id = some r) ∨
    next' = next+1 ∧ ∃ r, rows' = Function.update rows next (some r)

lemma Counts.grow {R : Type} {rows rows' : UInt64 → Option R} {next' : UInt64} (h : Counts rows next n)
    (hg : Grows rows rows' next next') (hn : n+1≠0) : Counts rows' next' (n+1) := by
  obtain ⟨rfl,hrows⟩ | ⟨rfl,r,rfl⟩ := hg
  · exact h.keep hn fun hr => ⟨_,hrows hr⟩
  · exact h.insert hn r

lemma Grows.of_eq {R : Type} {rows rows' : UInt64 → Option R} (h : rows' = rows) :
    Grows rows rows' next next :=
  .inl ⟨rfl,fun hr => h ▸ hr⟩

lemma Grows.same {R : Type} {rows : UInt64 → Option R} : Grows rows rows next next := .of_eq rfl

end Counters

/-- The rows that the cache is not made of. -/
structure Logs where
  metaRow : Option UInt64
  history : UInt64 → Option SchemaHistoryEntry
  audit : UInt64 → Option AuditEntry

def SysHeap.logs (h : SysHeap) : Logs := ⟨h.metaRows.live metaKeyNextTxID,h.history.live,h.audit.live⟩

/-- No table has a version beyond the given one. -/
structure SysHeap.UpTo (h : SysHeap) (n : UInt64) : Prop where
  tables : h.tables.UpTo n
  users : h.users.UpTo n
  metaRows : h.metaRows.UpTo n
  roles : h.roles.UpTo n
  grants : h.grants.UpTo n
  userRoles : h.userRoles.UpTo n
  history : h.history.UpTo n
  audit : h.audit.UpTo n

/-- Each line of a log carries the id it is stored under. -/
structure Logs.Keyed (lg : Logs) : Prop where
  history : ∀ {id entry}, lg.history id = some entry → entry.historyID = id
  audit : ∀ {id entry}, lg.audit id = some entry → entry.auditID = id

def Write.log (tx : UInt64) (l : Logs) : Write → Logs
  | .updateMeta => { l with metaRow := some tx }
  | .insertHistory entry => { l with history := Function.update l.history entry.historyID (some entry) }
  | .insertAudit entry => { l with audit := Function.update l.audit entry.auditID (some entry) }
  | _ => l

section Logging
variable {tx n : UInt64} {fault : Option SQL.Err}
  {faults : ℕ → Option SQL.Err} {i : ℕ} {l : List Step} {h h' : SysHeap} {w : Write}
  {c : Cache} {ch : Change} {env : Env} {t : Ticket}

lemma Write.apply_log (hw : w.apply tx fault h = .ok h') : h'.logs = w.log tx h.logs := by
  cases w <;> simp only [Write.apply,insertRow,updateRow,deleteRow] at hw <;> obtain ⟨t,ht,rfl⟩ :=
    Except.map_ok.mp hw <;>
    have hlive := live_of_writeRow ht <;> simp_all [SysHeap.logs,Write.log]

lemma Write.apply_upTo (hw : w.apply tx fault h = .ok h') (hu : h.UpTo n) (hn : tx ≤ n) :
    tx≠0 ∧ h'.UpTo n := by
  obtain ⟨h1,h2,h3,h4,h5,h6,h7,h8⟩ := hu
  cases w <;> simp only [Write.apply,insertRow,updateRow,deleteRow] at hw <;> obtain ⟨t,ht,rfl⟩ :=
    Except.map_ok.mp hw <;>
    refine ⟨(writeRow_ok.mp ht).1,?_⟩ <;> constructor <;>
      first | assumption | exact upTo_of_writeRow ht ‹_› hn

lemma logs_of_allGo (hg : allGo tx faults i l h = some h') :
    h'.logs = l.foldl (fun lg step => step.write.log tx lg) h.logs := by
  induction l generalizing i h with
  | nil =>
    obtain rfl := Option.some.inj hg
    rfl
  | cons step l ih =>
    obtain ⟨h1,ha,hg⟩ := allGo_cons hg
    rw [ih hg,Write.apply_log ha,List.foldl_cons]

lemma upTo_of_allGo (hg : allGo tx faults i l h = some h') (hu : h.UpTo n) (hn : tx ≤ n) : h'.UpTo n := by
  induction l generalizing i h with
  | nil =>
    obtain rfl := Option.some.inj hg
    exact hu
  | cons step l ih =>
    obtain ⟨h1,ha,hg⟩ := allGo_cons hg
    exact ih hg (Write.apply_upTo ha hu hn).2

lemma Logs.Keyed.log {lg : Logs} (hk : lg.Keyed) (w : Write) : (w.log tx lg).Keyed := by
  cases w with
  | insertHistory entry => exact ⟨key_update hk.history,hk.audit⟩
  | insertAudit entry => exact ⟨hk.history,key_update hk.audit⟩
  | _ => exact ⟨hk.history,hk.audit⟩

lemma Logs.Keyed.foldl {lg : Logs} (hk : lg.Keyed) (l : List Step) :
    (l.foldl (fun lg step => step.write.log tx lg) lg).Keyed := by
  induction l generalizing lg with
  | nil => exact hk
  | cons step l ih => exact ih (hk.log step.write)

lemma foldl_rowSteps (c : Cache) (ch : Change) (lg : Logs) :
    (rowSteps c ch).foldl (fun lg step => step.write.log tx lg) lg = lg := by
  have hnone : ∀ l : List Step, (∀ step ∈ l, ∀ lg, step.write.log tx lg = lg) →
    ∀ lg, l.foldl (fun lg step => step.write.log tx lg) lg = lg := by
    intro l hl
    induction l with
    | nil => exact fun _ => rfl
    | cons step l ih =>
      intro lg
      rw [List.foldl_cons,hl step (List.mem_cons_self ..)]
      exact ih (fun s hs => hl s (List.mem_cons_of_mem _ hs)) lg
  refine hnone _ (fun step hstep => ?_) lg
  cases ch with
  | dropRole roleName info =>
    simp only [rowSteps,List.mem_append,List.mem_map,List.mem_singleton] at hstep
    obtain (⟨gi,-,rfl⟩ | ⟨x,-,rfl⟩) | rfl := hstep <;> exact fun _ => rfl
  | _ =>
    rw [List.mem_singleton.mp hstep]
    exact fun _ => rfl

lemma logs_call (hg : allGo tx faults 0 (steps env tx c t ch) h = some h') :
    h'.metaRows.live metaKeyNextTxID = some tx ∧
      Grows h.history.live h'.history.live c.nextHistoryID (c.publish ch).nextHistoryID ∧
      Grows h.audit.live h'.audit.live c.nextAuditLogID (c.publish ch).nextAuditLogID := by
  have hlogs := logs_of_allGo hg
  simp only [steps,List.foldl_append,List.foldl_cons,foldl_rowSteps] at hlogs
  have hmeta := congrArg Logs.metaRow hlogs
  have hhistory := congrArg Logs.history hlogs
  have haudit := congrArg Logs.audit hlogs
  cases ch with
  | createTable info => exact ⟨hmeta,.inr ⟨rfl,_,hhistory⟩,.inr ⟨rfl,_,haudit⟩⟩
  | registerTable info => exact ⟨hmeta,.inr ⟨rfl,_,hhistory⟩,.inr ⟨rfl,_,haudit⟩⟩
  | dropTable tableName info => exact ⟨hmeta,.inr ⟨rfl,_,hhistory⟩,.inr ⟨rfl,_,haudit⟩⟩
  | _ =>
    simp only [Cache.publish,Cache.audited,Cache.dropRole,Cache.addUserRole,Cache.addGrant]
    exact ⟨hmeta,.of_eq hhistory,.inr ⟨rfl,_,haudit⟩⟩

end Logging

section Stored
variable {c : Cache} {v : View} {op : Op} {ch : Change} {h h' : SysHeap} {n : UInt64}

lemma grows_of_made (hs : Sound c v) (hm : Made c op ch) :
    Grows v.users (effects v (rowSteps c ch)).users c.nextUserID (c.publish ch).nextUserID ∧
      Grows v.roles (effects v (rowSteps c ch)).roles c.nextRoleID (c.publish ch).nextRoleID ∧
      Grows v.grants (effects v (rowSteps c ch)).grants c.nextGrantID (c.publish ch).nextGrantID ∧
      Grows v.userRoles (effects v (rowSteps c ch)).userRoles c.nextUserRoleID
        (c.publish ch).nextUserRoleID := by
  cases hm with
  | createUser h => exact ⟨.inr ⟨rfl,_,rfl⟩,.same,.same,.same⟩
  | createRole h => exact ⟨.same,.inr ⟨rfl,_,rfl⟩,.same,.same⟩
  | dropRole h =>
    rw [effects_dropRole hs.agrees hs.keyed]
    refine ⟨.same,.inl ⟨rfl,some_of_update_none⟩,.inl ⟨rfl,fun hr => ?_⟩,.inl ⟨rfl,fun hr => ?_⟩⟩
    · exact (Option.filter_eq_some_iff.mp hr).1
    · exact (Option.filter_eq_some_iff.mp hr).1
  | assignRole hu hr h =>
    simp only [Cache.publish,Cache.audited,Cache.addUserRole]
    exact ⟨.same,.same,.same,.inr ⟨rfl,_,rfl⟩⟩
  | revokeRole hu hr h => exact ⟨.same,.same,.same,.inl ⟨rfl,some_of_update_none⟩⟩
  | grant ha hr ht h =>
    simp only [Cache.publish,Cache.audited,Cache.addGrant]
    exact ⟨.same,.same,.inr ⟨rfl,_,rfl⟩,.same⟩
  | revoke ha hr ht h => exact ⟨.same,.same,.inl ⟨rfl,some_of_update_none⟩,.same⟩
  | _ => exact ⟨.same,.same,.same,.same⟩

/-- The counters at rest. -/
structure Stored (c : Cache) (h : SysHeap) (n : UInt64) : Prop where
  upTo : h.UpTo n
  metaRow : h.metaRows.live metaKeyNextTxID = some n
  keyed : h.logs.Keyed
  users : Counts h.users.live c.nextUserID n
  roles : Counts h.roles.live c.nextRoleID n
  grants : Counts h.grants.live c.nextGrantID n
  userRoles : Counts h.userRoles.live c.nextUserRoleID n
  history : Counts h.history.live c.nextHistoryID n
  audit : Counts h.audit.live c.nextAuditLogID n

lemma SysHeap.UpTo.mono {m : UInt64} (hu : h.UpTo n) (hm : n ≤ m) : h.UpTo m :=
  ⟨hu.tables.mono hm,hu.users.mono hm,hu.metaRows.mono hm,hu.roles.mono hm,hu.grants.mono hm,
    hu.userRoles.mono hm,
    hu.history.mono hm,hu.audit.mono hm⟩

lemma tx_ne_zero {tx : UInt64} {faults : ℕ → Option SQL.Err} {env : Env} {t : Ticket}
    (hg : allGo tx faults 0 (steps env tx c t ch) h = some h') : tx≠0 := by
  rw [steps,List.cons_append,List.cons_append] at hg
  obtain ⟨h1,ha,-⟩ := allGo_cons hg
  obtain ⟨t,ht,-⟩ := Except.map_ok.mp ha
  exact (writeRow_ok.mp ht).1

theorem Stored.publish {deps : Deps} {env : Env} {t : Ticket} {faults : ℕ → Option SQL.Err}
    (hst : Stored c h n)
    (hs : Sound c h.view) (ht : Checked c op t) (hch : change deps env c t = .ok ch)
    (hg : allGo (n+1) faults 0 (steps env (n+1) c t ch) h = some h') : Stored (c.publish ch) h' (n+1) := by
  have hn := tx_ne_zero hg
  have hlt := (lt_succ (toNat_succ_lt hn)).le
  have hview := (view_of_allGo hg).trans effects_steps
  obtain ⟨hu,hr,hgr,hur⟩ := grows_of_made hs (made_of_checked ht hch)
  rw [← hview] at hu hr hgr hur
  obtain ⟨hmeta,hh,ha⟩ := logs_call hg
  exact ⟨upTo_of_allGo hg (hst.upTo.mono hlt) le_rfl,hmeta,logs_of_allGo hg ▸ hst.keyed.foldl _,
    hst.users.grow hu hn,hst.roles.grow hr hn,hst.grants.grow hgr hn,
    hst.userRoles.grow hur hn,hst.history.grow hh hn,hst.audit.grow ha hn⟩

lemma mem_rows_fst {R : Type} (t : Rows R) (id : UInt64) : id ∈ t.rows.map Prod.fst ↔ t.live id≠none := by
  rw [List.mem_map,Option.ne_none_iff_exists']
  constructor
  · rintro ⟨⟨k,r⟩,hr,rfl⟩
    exact ⟨r,VersionTable.mem_rows.mp hr⟩
  · rintro ⟨r,hr⟩
    exact ⟨(id,r),VersionTable.mem_rows.mpr hr,rfl⟩

lemma rows_numbers {R : Type} {t : Rows R} {number : R → UInt64}
    (hk : ∀ {id r}, t.live id = some r → number r = id) :
    (t.rows.map Prod.snd).map number = t.rows.map Prod.fst := by
  rw [List.map_map]
  exact List.map_congr_left fun e he => hk (VersionTable.mem_rows.mp he)

theorem Stored.load (hst : Stored c h n) (hk : Keyed h.view) : Stored (loadCache h) h n := by
  have hload := loadCache_eq h
  have hhistory : (loadCache h).nextHistoryID = (h.history.rows.map Prod.fst).foldl above 1 := by
    rw [← rows_numbers hst.keyed.history,List.foldl_map,List.foldl_map]
    exact congrArg Cache.nextHistoryID hload
  have haudit : (loadCache h).nextAuditLogID = (h.audit.rows.map Prod.fst).foldl above 1 := by
    rw [← rows_numbers hst.keyed.audit,List.foldl_map,List.foldl_map]
    exact congrArg Cache.nextAuditLogID hload
  refine ⟨hst.upTo,hst.metaRow,hst.keyed,?_,?_,?_,?_,?_,?_⟩
  · rw [hload]
    exact rows_numbers hk.users ▸ hst.users.load (mem_rows_fst _)
  · rw [hload]
    exact rows_numbers hk.roles ▸ hst.roles.load (mem_rows_fst _)
  · rw [hload]
    exact rows_numbers hk.grants ▸ hst.grants.load (mem_rows_fst _)
  · rw [hload]
    exact hst.userRoles.load (mem_rows_fst _)
  · rw [hhistory]
    exact hst.history.load (mem_rows_fst _)
  · rw [haudit]
    exact hst.audit.load (mem_rows_fst _)

end Stored
section Rest
variable {s : State} {c : Cache} {deps : Deps} {env : Env} {op : Op}

/-- Stop, and start again. -/
def restart (s : State) : Except Err Unit × State := start none (stop s).2

/-- No call is in progress, and the maps are those of the rows. -/
structure Quiet (s : State) (c : Cache) : Prop where
  cache : s.cache = some c
  pendingTables : c.pendingTables = []
  pendingUsers : c.pendingUsers = []
  sound : Sound c s.heap.view
  metaRow : s.heap.metaRows.live metaKeyNextTxID≠none

/-- Between two calls, with all of the catalog stored. -/
structure AtRest (s : State) (c : Cache) : Prop extends Quiet s c where
  stored : Stored c s.heap s.nextTxID

lemma atRest_new : AtRest (start none .new).2 newCache where
  cache := rfl
  pendingTables := rfl
  pendingUsers := rfl
  sound := sound_new
  metaRow := by rintro ⟨⟩
  stored := by
    have hb : ((VersionTable.empty : VersionTable Bytes UInt64 UInt64).chain metaKeyNextTxID).Before
      1 := List.forall_mem_nil _
    have hmeta : (start none .new).2.heap.metaRows =
      VersionTable.empty.push metaKeyNextTxID 1 (some 1) hb := rfl
    refine ⟨⟨VersionTable.upTo_empty,VersionTable.upTo_empty,?_,VersionTable.upTo_empty,
      VersionTable.upTo_empty,
      VersionTable.upTo_empty,VersionTable.upTo_empty,VersionTable.upTo_empty⟩,?_,
        ⟨by rintro _ _ ⟨⟩,by rintro _ _ ⟨⟩⟩,⟨le_rfl,le_rfl,by rintro _ _ ⟨⟩⟩,
      ⟨le_rfl,le_rfl,by rintro _ _ ⟨⟩⟩,⟨le_rfl,le_rfl,by rintro _ _ ⟨⟩⟩,⟨le_rfl,le_rfl,
        by rintro _ _ ⟨⟩⟩,⟨le_rfl,le_rfl,by rintro _ _ ⟨⟩⟩,⟨le_rfl,le_rfl,by rintro _ _ ⟨⟩⟩⟩
    · rw [hmeta]
      exact VersionTable.upTo_empty.push le_rfl _
    · rfl

namespace Quiet

lemma stop (h : Quiet s c) : stop s = (.ok (),{ s with cache := none }) := by
  rw [Catalog.stop,h.cache]
  simp [h.pendingTables,h.pendingUsers]

lemma restart_eq (h : Quiet s c) : restart s = (.ok (),{ s with
    cache := some (loadCache s.heap)
    nextTxID := (s.heap.metaRows.live metaKeyNextTxID).getD s.nextTxID }) := by
  obtain ⟨n,hn⟩ := Option.ne_none_iff_exists'.mp h.metaRow
  simp [Catalog.restart,h.stop,start,bootstrap,hn]

lemma restart (h : Quiet s c) : Quiet (restart s).2 (loadCache s.heap) := by
  rw [h.restart_eq]
  exact ⟨rfl,by rw [loadCache_eq]; rfl,by rw [loadCache_eq]; rfl,sound_loadCache h.sound,h.metaRow⟩

lemma call (h : Quiet s c) (hw : writesSucceed deps env op s = true) :
    (∃ e n, call deps env op s = (.error e,{ s with nextTxID := n })) ∨
      (call deps env op s).1 = .ok () ∧ ∃ ch, Made c op ch ∧ Quiet (call deps env op s).2 (c.publish ch) ∧
        (call deps env op s).2.heap.view = effects s.heap.view (rowSteps c ch) ∧
        (Stored c s.heap s.nextTxID →
          Stored (c.publish ch) (call deps env op s).2.heap (call deps env op s).2.nextTxID) := by
  obtain hrefused | ⟨c',t,ch,heap,hc',ht,hch,hg,hcall⟩ := outcome_of_writesSucceed hw
  · exact .inl hrefused
  · obtain rfl := Option.some.inj (h.cache.symm.trans hc')
    rw [hcall]
    refine .inr ⟨rfl,ch,made_of_checked ht hch,⟨rfl,?_,?_,h.sound.publish ht hch hg,?_⟩,
      (view_of_allGo hg).trans effects_steps,
      fun hst => hst.publish h.sound ht hch hg⟩
    · rw [← h.pendingTables]
      cases ch <;> rfl
    · rw [← h.pendingUsers]
      cases ch <;> rfl
    · exact fun hn => nomatch (logs_call hg).1.symm.trans hn

end Quiet

lemma AtRest.restart_eq (h : AtRest s c) :
    restart s = (.ok (),{ s with cache := some (loadCache s.heap) }) := by
  rw [h.toQuiet.restart_eq,h.stored.metaRow]
  rfl

lemma AtRest.restart (h : AtRest s c) : AtRest (restart s).2 (loadCache s.heap) := by
  refine ⟨h.toQuiet.restart,?_⟩
  rw [h.restart_eq]
  exact h.stored.load h.sound.keyed

lemma AtRest.call (h : AtRest s c) (hw : writesSucceed deps env op s = true)
    (hok : (call deps env op s).1 = .ok ()) :
    ∃ ch, Made c op ch ∧ AtRest (call deps env op s).2 (c.publish ch) ∧
      (call deps env op s).2.heap.view = effects s.heap.view (rowSteps c ch) := by
  obtain ⟨e,n,hcall⟩ | ⟨-,ch,hm,hquiet,hview,hstored⟩ := h.toQuiet.call hw
  · rw [hcall] at hok
    cases hok
  · exact ⟨ch,hm,⟨hquiet,hstored h.stored⟩,hview⟩

end Rest

section Create
variable {tx n : UInt64} {fault : Option SQL.Err} {s : State} {c : Cache} {deps : Deps} {env : Env}
  {op : Op}

/-- A row that may be written is refused for the number of the transaction only, or by an error from
below. -/
lemma error_of_writeRow {K R : Type} [LinearOrder K] {present : Bool} {e e' : SQL.Err} {k : K}
    {row : Option R}
    {t : VersionTable K UInt64 R} (ht : t.UpTo n) (hp : (t.live k).isSome = present)
    (he : writeRow (n+1) fault present e' k row t = .error e) : e = .invalidTx ∨ fault = some e := by
  by_cases hn : n+1 = 0
  · rw [writeRow,if_pos hn] at he
    exact .inl (Except.error.inj he).symm
  · have hb : (t.chain k).Before (n+1) := ht.before (lt_succ (toNat_succ_lt hn))
    cases hf : fault with
    | none =>
      have hok : writeRow (n+1) fault present e' k row t = .ok (t.push k (n+1) row hb) :=
        writeRow_ok.mpr ⟨hn,hf,hp,hb,rfl⟩
      cases hok.symm.trans he
    | some err =>
      have hv : (t.chain k).visible (n+1) = t.live k := Chain.visible_eq_newest fun x hx => (hb x hx).le
      rw [writeRow,if_neg hn,dif_pos hb,hv,if_neg (not_not.mpr hp),hf] at he
      exact .inr (congrArg some (Except.error.inj he))

lemma runSteps_cons_error {faults : ℕ → Option SQL.Err} {i : ℕ} {text text' : String} {w : Write}
    {rest : List Step} {h h' : SysHeap}
    {e : SQL.Err} (hr : runSteps tx faults i (⟨some text',w⟩::rest) h = (.error (.wrap text e),h')) :
    w.apply tx (faults i) h = .error e ∨
      ∃ h1, w.apply tx (faults i) h = .ok h1 ∧
        runSteps tx faults (i+1) rest h1 = (.error (.wrap text e),h') := by
  rw [runSteps] at hr
  cases ha : w.apply tx (faults i) h with
  | error err =>
    rw [ha] at hr
    cases hr
    exact .inl rfl
  | ok h1 =>
    rw [ha] at hr
    exact .inr ⟨h1,rfl,hr⟩

lemma Except.map_error {ε α β : Type} {f : α → β} {x : Except ε α} {e : ε} :
    x.map f = .error e ↔ x = .error e := by
  cases x <;> simp [Except.map]

lemma grantTable_ne_wrap {tableName : Bytes} {text : String} {e : SQL.Err} :
    grantTable c tableName≠.error (.wrap text e) := by
  rw [grantTable]
  split
  · simp
  · simp [Except.map_error,found_eq_error]

lemma check_ne_wrap {text : String} {e : SQL.Err} : check deps s op≠.error (.wrap text e) := by
  cases op with
  | createTable engineName tableName schemaJSON =>
    simp only [check,ne_eq,Fallible.bind_eq_error,require_eq_error,found_eq_error,State.opened,
      reduceCtorEq,and_false,false_or]
    rintro ⟨-,-,c',-,validateSchema,-,hk⟩
    cases hv : validateSchema schemaJSON <;>
      simp [hv,Fallible.bind_eq_error,require_eq_error,pure,Except.pure] at hk
  | _ =>
    simp [check,Fallible.bind_eq_error,require_eq_error,found_eq_error,State.opened,userRole,
      grantTable_ne_wrap,pure,Except.pure]

theorem create_accepted (h : AtRest s c) {text : String} {e : SQL.Err}
    (hop : (∃ engineName tableName schemaJSON, op = .createTable engineName tableName schemaJSON ∧
      s.heap.tables.live c.nextTableID = none) ∨ ∃ roleName, op = .createRole roleName)
    (he : (call deps env op s).1 = .error (.wrap text e)) :
    e = .invalidTx ∨ ∃ i, env.faults i = some e := by
  have hu := h.stored.upTo
  have ho := call_outcome deps env op s
  generalize call deps env op s = r at ho he
  have hmetaRow : (s.heap.metaRows.live metaKeyNextTxID).isSome = true := by rw [h.stored.metaRow]; rfl
  have hhistory := congrArg Option.isSome h.stored.history.free
  have haudit := congrArg Option.isSome h.stored.audit.free
  cases ho with
  | refused hk =>
    cases he
    exact (check_ne_wrap hk).elim
  | unhashed hc hk ht hch =>
    obtain ⟨engineName,tableName,schemaJSON,rfl,-⟩ | ⟨roleName,rfl⟩ := hop
    · cases ht
      cases hch
    · cases ht
      cases hch
  | failed hc hk ht hch hrun =>
    obtain rfl := Option.some.inj (h.cache.symm.trans hc)
    cases he
    have hfault : ∀ {i} {err : SQL.Err}, err = .invalidTx ∨ env.faults i = some err →
        err = .invalidTx ∨ ∃ i, env.faults i = some err := fun ht => ht.imp_right fun hf => ⟨_,hf⟩
    obtain ⟨engineName,tableName,schemaJSON,rfl,hfree⟩ | ⟨roleName,rfl⟩ := hop
    · have htable := congrArg Option.isSome hfree
      cases ht
      cases hch
      obtain ha | ⟨h1,ha,hrun⟩ := runSteps_cons_error hrun
      · exact hfault (error_of_writeRow hu.metaRows hmetaRow (Except.map_error.mp ha))
      obtain ⟨t1,-,rfl⟩ := Except.map_ok.mp ha
      obtain ha | ⟨h2,ha,hrun⟩ := runSteps_cons_error hrun
      · exact hfault (error_of_writeRow hu.tables htable (Except.map_error.mp ha))
      obtain ⟨t2,-,rfl⟩ := Except.map_ok.mp ha
      obtain ha | ⟨h3,ha,hrun⟩ := runSteps_cons_error hrun
      · exact hfault (error_of_writeRow hu.history hhistory (Except.map_error.mp ha))
      obtain ⟨t3,-,rfl⟩ := Except.map_ok.mp ha
      obtain ha | ⟨h4,ha,hrun⟩ := runSteps_cons_error hrun
      · exact hfault (error_of_writeRow hu.audit haudit (Except.map_error.mp ha))
      cases hrun
    · have hrole := congrArg Option.isSome h.stored.roles.free
      cases ht
      cases hch
      obtain ha | ⟨h1,ha,hrun⟩ := runSteps_cons_error hrun
      · exact hfault (error_of_writeRow hu.metaRows hmetaRow (Except.map_error.mp ha))
      obtain ⟨t1,-,rfl⟩ := Except.map_ok.mp ha
      obtain ha | ⟨h2,ha,hrun⟩ := runSteps_cons_error hrun
      · exact hfault (error_of_writeRow hu.roles hrole (Except.map_error.mp ha))
      obtain ⟨t2,-,rfl⟩ := Except.map_ok.mp ha
      obtain ha | ⟨h3,ha,hrun⟩ := runSteps_cons_error hrun
      · exact hfault (error_of_writeRow hu.audit haudit (Except.map_error.mp ha))
      cases hrun
  | done hc hk ht hch hrun => cases he

end Create

section Runs
variable {deps : Deps} {s : State} {c c' : Cache} {v : View}

/-- A call, or a stop and a new start. -/
inductive Act
  | call (env : Env) (op : Op)
  | restart

def act (deps : Deps) : Act → State → Except Err Unit × State
  | .call env op,s => call deps env op s
  | .restart,s => restart s

/-- No table gets the last number there is. -/
def Op.NotLast (s : State) : Op → Prop
  | .createTable _ _ _ => ∀ c, s.cache = some c → c.nextTableID+1≠0
  | .registerTable tableID _ _ _ => tableID+1≠0
  | _ => True

/-- The call returns nil, and no heap write fails of which it says nothing. -/
def Succeeds (deps : Deps) : Act → State → Prop
  | .call env op,s => (call deps env op s).1 = .ok () ∧ writesSucceed deps env op s = true ∧ op.NotLast s
  | .restart,_ => True

/-- The same tables, users, roles, grants and assignments. -/
structure Cache.Same (c c' : Cache) : Prop where
  tables : c'.tables = c.tables
  users : c'.users = c.users
  usersByID : c'.usersByID = c.usersByID
  roles : c'.roles = c.roles
  rolesByID : c'.rolesByID = c.rolesByID
  grants : ∀ roleID gi, gi ∈ c'.grants roleID ↔ gi ∈ c.grants roleID
  grantsByKey : c'.grantsByKey = c.grantsByKey
  userRoles : ∀ userID roleID, roleID ∈ c'.userRoles userID ↔ roleID ∈ c.userRoles userID
  userRoleAssignments : ∀ key, Assoc.lookup key c'.userRoleAssignments =
    Assoc.lookup key c.userRoleAssignments

lemma Agrees.same (h : Agrees c v) (h' : Agrees c' v) : c.Same c' := by
  have hassignments : ∀ key, Assoc.lookup key c'.userRoleAssignments =
    Assoc.lookup key c.userRoleAssignments := by
    intro key
    apply Option.ext
    intro id
    exact (h'.assignments key id).trans (h.assignments key id).symm
  refine ⟨h'.tables.eq h.tables,h'.users.eq h.users,h'.usersByID.trans h.usersByID.symm,
    h'.roles.eq h.roles,
    h'.rolesByID.trans h.rolesByID.symm,fun roleID gi =>
      (h'.grants roleID gi).trans (h.grants roleID gi).symm,
    h'.grantsByKey.eq h.grantsByKey,fun userID roleID => ?_,hassignments⟩
  rw [h'.userRoles,h.userRoles,hassignments]

/-- At rest, and no table has the last number. -/
def Steady (s : State) : Prop := ∃ c, AtRest s c ∧ ∀ {id ti}, s.heap.view.tables id = some ti → id+1≠0

lemma steady_act (a : Act) (s : State) (h : Steady s) (hok : Succeeds deps a s) :
    Steady (act deps a s).2 := by
  obtain ⟨c,hr,hlast⟩ := h
  cases a with
  | restart =>
    refine ⟨_,hr.restart,?_⟩
    rw [act,hr.restart_eq]
    exact hlast
  | call env op =>
    obtain ⟨hcall,hw,hnot⟩ := hok
    obtain ⟨ch,hm,hr',hview⟩ := hr.call hw hcall
    refine ⟨_,hr',fun {id ti} hti => ?_⟩
    rw [act,hview] at hti
    cases hm with
    | createTable _ _ =>
      change Function.update s.heap.view.tables c.nextTableID _ id = _ at hti
      rw [Function.update_apply] at hti
      split at hti
      · exact ‹id = _› ▸ hnot c hr.cache
      · exact hlast hti
    | @registerTable tableID _ _ _ _ _ =>
      change Function.update s.heap.view.tables tableID _ id = _ at hti
      rw [Function.update_apply] at hti
      split at hti
      · exact ‹id = _› ▸ hnot
      · exact hlast hti
    | dropTable h => exact hlast (some_of_update_none hti)
    | dropRole h =>
      rw [effects_dropRole hr.sound.agrees hr.sound.keyed] at hti
      exact hlast hti
    | _ => exact hlast hti

lemma table_free (hk : Keyed s.heap.view) (h : ∀ {id ti}, s.heap.view.tables id = some ti → id+1≠0) :
    s.heap.tables.live (loadCache s.heap).nextTableID = none := by
  rw [loadCache_eq]
  change s.heap.tables.live (List.foldl above 1 _) = none
  rw [rows_numbers hk.tables]
  by_contra hne
  have hids : ∀ id ∈ s.heap.tables.rows.map Prod.fst, id+1≠0 := by
    intro id hid
    obtain ⟨ti,hti⟩ := Option.ne_none_iff_exists'.mp ((mem_rows_fst _ _).mp hid)
    exact h hti
  exact lt_irrefl _ ((lt_foldl_above 1 hids).2 _ ((mem_rows_fst _ _).mpr hne))

/-- What the catalog holds after a stop and a start is what it held before, and it can be added to. -/
theorem reload_equivalent {run : List Act}
    (hok : Machine.Allowed (act deps) (Succeeds deps) run (start none .new).2) :
    let s := (Machine.run (act deps) run (start none .new).2).2
    (stop s).1 = .ok () ∧ (restart s).1 = .ok () ∧
      (∃ c c', s.cache = some c ∧ (restart s).2.cache = some c' ∧ c.Same c') ∧
      ∀ env op, (∀ i, env.faults i≠some .txConflict ∧ env.faults i≠some .duplicateKey) →
        ((∃ engineName tableName schemaJSON, op = .createTable engineName tableName schemaJSON) ∨
          ∃ roleName, op = .createRole roleName) →
        ∀ text e, (call deps env op (restart s).2).1 = .error (.wrap text e) → e≠.txConflict ∧
          e≠.duplicateKey := by
  have hnew : Steady (start none .new).2 := ⟨newCache,atRest_new,nofun⟩
  have hinv := (Machine.run_invariant (Q := fun _ => True) (fun a s hs ha =>
    ⟨steady_act a s hs ha,trivial⟩) hnew hok).1
  generalize (Machine.run (act deps) run (start none .new).2).2 = s at hinv
  obtain ⟨c,hr,hlast⟩ := hinv
  have hre := hr.restart_eq
  have hr' := hr.restart
  refine ⟨by rw [hr.stop],by rw [hre],⟨c,loadCache s.heap,hr.cache,hr'.cache,hr.sound.agrees.same ?_⟩,?_⟩
  · exact (sound_loadCache hr.sound).agrees
  · intro env op hfaults hop text e he
    have hfree : (restart s).2.heap.tables.live (loadCache s.heap).nextTableID = none := by
      rw [hre]
      exact table_free hr.sound.keyed hlast
    obtain rfl | ⟨i,hi⟩ := create_accepted hr' (hop.imp_left fun ⟨e,t,x,hx⟩ => ⟨e,t,x,hx,hfree⟩) he
    · exact ⟨nofun,nofun⟩
    · refine ⟨?_,?_⟩
      · rintro rfl
        exact (hfaults i).1 hi
      · rintro rfl
        exact (hfaults i).2 hi

end Runs

def plainCall (op : Op) : Act := .call ⟨0,0,fun _ => none⟩ op

def tableOps : List Act :=
  [plainCall (.createTable (ascii "sql") (ascii "t") (ascii "x")),
    plainCall (.createRole (ascii "reader")),.restart,
    plainCall (.grant (ascii "reader") (ascii "t") (ascii "READ")),plainCall (.dropTable (ascii "t"))]

theorem reload_of_tables :
    Machine.Allowed (act plainDeps) (Succeeds plainDeps) tableOps (start none .new).2 ∧
    let s := (Machine.run (act plainDeps) tableOps (start none .new).2).2
    (stop s).1 = .ok () ∧ (restart s).1 = .ok () ∧
      (∃ c c', s.cache = some c ∧ (restart s).2.cache = some c' ∧ c.Same c') ∧
      ∀ env op, (∀ i, env.faults i≠some .txConflict ∧ env.faults i≠some .duplicateKey) →
        ((∃ engineName tableName schemaJSON, op = .createTable engineName tableName schemaJSON) ∨
          ∃ roleName, op = .createRole roleName) →
        ∀ text e, (call plainDeps env op (restart s).2).1 = .error (.wrap text e) →
          e≠.txConflict ∧ e≠.duplicateKey := by
  have hok : Machine.Allowed (act plainDeps) (Succeeds plainDeps) tableOps (start none .new).2 := by
    refine ⟨⟨?_,?_,?_⟩,⟨?_,?_,trivial⟩,trivial,⟨?_,?_,trivial⟩,⟨?_,?_,trivial⟩,trivial⟩
    case refine_3 =>
      rintro c ⟨⟩
      decide +kernel
    all_goals decide +kernel
  exact ⟨hok,reload_equivalent hok⟩

/-- The deletion of a grant fails during a DROP ROLE, which does not say so. -/
def staleOps : List Act :=
  [plainCall (.createRole (ascii "reader")),plainCall (.grant (ascii "reader") [] (ascii "READ")),
    .call ⟨0,0,fun i => if i = 1 then some .store else none⟩ (.dropRole (ascii "reader"))]

/-- The first and the last number are those of tables. -/
def edgeOps : List Act :=
  [plainCall (.registerTable 0 (ascii "sql") (ascii "a") (ascii "x")),
    plainCall (.registerTable 0xffffffffffffffff (ascii "sql") (ascii "b") (ascii "x"))]

theorem reload_differs :
    (let r := Machine.run (act plainDeps) staleOps (start none .new).2
    r.1 = [.ok (),.ok (),.ok ()] ∧ (r.2.cache.map (·.grantsByKey ⟨1,0,.read⟩)) = some none ∧
      ((restart r.2).2.cache.map (·.grantsByKey ⟨1,0,.read⟩)) = some (some ⟨⟨1,0,.read⟩,1⟩)) ∧
    let r := Machine.run (act plainDeps) edgeOps (start none .new).2
    r.1 = [.ok (),.ok ()] ∧
      (act plainDeps (plainCall (.createTable (ascii "sql") (ascii "c") (ascii "x"))) (restart r.2).2).1 =
        .error (.wrap "catalog: insert table: %w" .duplicateKey) := by
  decide +kernel

end Plomvix.Catalog
