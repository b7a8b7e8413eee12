import Plomvix.Catalog.Sessions

/-! The numbers of tables. A grant names its table by number, and stays when the table is dropped: no
later table may have this number. The catalog is loaded through `Scan`, which leaves out the first row
of every system table. -/
namespace Plomvix.Catalog
open Lib
open Engine (ascii)

/-- Numbers that a counter gives out: to tables that are there, to tables that were dropped, and in
advance. -/
structure Numbers (next : UInt64) (live : UInt64 → Prop) (dropped allocated : List UInt64) : Prop where
  pos : 1 ≤ next
  ofLive : ∀ {id}, live id → 1 ≤ id ∧ id < next ∧ id ∉ dropped ∧ id ∉ allocated
  ofDropped : ∀ {id}, id ∈ dropped → 1 ≤ id ∧ id < next
  ofAllocated : ∀ {id}, id ∈ allocated → 1 ≤ id ∧ id < next ∧ id ∉ dropped

namespace Numbers
variable {next next' id : UInt64} {live live' : UInt64 → Prop} {dropped allocated allocated' : List UInt64}

lemma create (h : Numbers next live dropped allocated) (hn : next+1≠0)
    (hl : ∀ {i}, live' i → i = next ∨ live i) : Numbers (next+1) live' dropped allocated := by
  have hlt := lt_succ (toNat_succ_lt hn)
  refine ⟨h.pos.trans hlt.le,fun {i} hi => ?_,fun hd => ?_,fun ha => ?_⟩
  · obtain rfl | hi := hl hi
    · exact ⟨h.pos,hlt,fun hd => lt_irrefl _ (h.ofDropped hd).2,
        fun ha => lt_irrefl _ (h.ofAllocated ha).2.1⟩
    · obtain ⟨h1,h2,h3⟩ := h.ofLive hi
      exact ⟨h1,h2.trans hlt,h3⟩
  · exact ⟨(h.ofDropped hd).1,(h.ofDropped hd).2.trans hlt⟩
  · obtain ⟨h1,h2,h3⟩ := h.ofAllocated ha
    exact ⟨h1,h2.trans hlt,h3⟩

lemma allocate (h : Numbers next live dropped allocated) (hn : next+1≠0) :
    Numbers (next+1) live dropped (next::allocated) := by
  have hnew : Numbers (next+1) live dropped allocated := h.create hn .inr
  have hlt := lt_succ (toNat_succ_lt hn)
  refine ⟨hnew.pos,fun hi => ?_,hnew.ofDropped,fun ha => ?_⟩
  · obtain ⟨h1,h2,h3,h4⟩ := h.ofLive hi
    refine ⟨h1,h2.trans hlt,h3,fun hm => ?_⟩
    obtain rfl | hm := List.mem_cons.mp hm
    exacts [lt_irrefl _ h2,h4 hm]
  · obtain rfl | ha := List.mem_cons.mp ha
    · exact ⟨h.pos,hlt,fun hd => lt_irrefl _ (h.ofDropped hd).2⟩
    · exact hnew.ofAllocated ha

lemma register (h : Numbers next live dropped allocated) (hid : id ∈ allocated)
    (hl : ∀ {i}, live' i → i = id ∨ live i) (ha : ∀ {i}, i ∈ allocated' → i ∈ allocated ∧ i≠id) :
    Numbers next live' dropped allocated' := by
  refine ⟨h.pos,fun {i} hi => ?_,h.ofDropped,fun hi => h.ofAllocated (ha hi).1⟩
  obtain rfl | hi := hl hi
  · obtain ⟨h1,h2,h3⟩ := h.ofAllocated hid
    exact ⟨h1,h2,h3,fun hm => (ha hm).2 rfl⟩
  · obtain ⟨h1,h2,h3,h4⟩ := h.ofLive hi
    exact ⟨h1,h2,h3,fun hm => h4 (ha hm).1⟩

lemma drop (h : Numbers next live dropped allocated) (hid : live id)
    (hl : ∀ {i}, live' i → i≠id ∧ live i) :
    Numbers next live' (id::dropped) allocated := by
  obtain ⟨h1,h2,h3,h4⟩ := h.ofLive hid
  refine ⟨h.pos,fun {i} hi => ?_,fun {i} hd => ?_,fun {i} ha => ?_⟩
  · obtain ⟨hne,hi⟩ := hl hi
    obtain ⟨i1,i2,i3,i4⟩ := h.ofLive hi
    exact ⟨i1,i2,by simp [hne,i3],i4⟩
  · obtain rfl | hd := List.mem_cons.mp hd
    exacts [⟨h1,h2⟩,h.ofDropped hd]
  · obtain ⟨a1,a2,a3⟩ := h.ofAllocated ha
    refine ⟨a1,a2,fun hm => ?_⟩
    obtain rfl | hm := List.mem_cons.mp hm
    exacts [h4 ha,a3 hm]

lemma fewer (h : Numbers next live dropped allocated) (ha : ∀ {i}, i ∈ allocated' → i ∈ allocated) :
    Numbers next live dropped allocated' := by
  refine ⟨h.pos,fun hi => ?_,h.ofDropped,fun hi => h.ofAllocated (ha hi)⟩
  obtain ⟨h1,h2,h3,h4⟩ := h.ofLive hi
  exact ⟨h1,h2,h3,fun hm => h4 (ha hm)⟩

end Numbers

/-- What a loop over `Scan` gets of a system table: the rows are in the order of their keys, and `Next`
goes on before it reads, so the first one is left out. -/
def scanned {R : Type} (t : Rows R) : List (UInt64 × R) := t.rows.tail

def loadScanned (h : SysHeap) : Cache :=
  let c := ((scanned h.tables).map Prod.snd).foldl Cache.loadTable newCache
  let c := ((scanned h.users).map Prod.snd).foldl Cache.loadUser c
  let c := ((scanned h.roles).map Prod.snd).foldl Cache.loadRole c
  let c := ((scanned h.grants).map Prod.snd).foldl Cache.loadGrant c
  let c := (scanned h.userRoles).foldl Cache.loadUserRole c
  { c with
    nextHistoryID := (scanned h.history).foldl (fun next row => above next row.2.historyID) 1
    nextAuditLogID := (scanned h.audit).foldl (fun next row => above next row.2.auditID) 1 }

/-- `Start` over the heap as it is scanned. -/
def startScanned (s : State) : Except Err Unit × State :=
  match s.cache with
  | some _ => (.ok (),s)
  | none =>
    match bootstrap none s.heap with
    | .error e => (.error e,s)
    | .ok h => (.ok (),{ s with
        heap := h, cache := some (loadScanned h)
        nextTxID := (h.metaRows.live metaKeyNextTxID).getD s.nextTxID })

/-- The catalog, with the numbers of the tables dropped so far, and with those that `AllocateTableID`
has given out since the last start and that no table has. -/
structure Ledger where
  state : State
  dropped : List UInt64
  allocated : List UInt64

/-- A new catalog after its first start. -/
def Ledger.new : Ledger := ⟨(startScanned .new).2,[],[]⟩

/-- What can happen to the numbers of the tables. -/
inductive TableAct
  | call (env : Env) (op : Op)
  | allocateTableID
  | restart
  /-- A new process finds the heap of the old one. -/
  | reopen

/-- The number that a table loses with the operation. -/
def Op.drops (s : State) : Op → List UInt64
  | .dropTable tableName =>
    match getTable s tableName with
    | .ok ti => [ti.tableID]
    | .error _ => []
  | _ => []

/-- The number that a table is registered with. -/
def Op.takes : Op → List UInt64
  | .registerTable tableID _ _ _ => [tableID]
  | _ => []

/-- One act, with the numbers it drops and gives out. -/
def Ledger.step (deps : Deps) : TableAct → Ledger → Except Err Unit × Ledger
  | .call env op,l =>
    match call deps env op l.state with
    | (.ok _,s) => (.ok (),⟨s,op.drops l.state++l.dropped,l.allocated.filter (· ∉ op.takes)⟩)
    | (.error e,s) => (.error e,{ l with state := s })
  | .allocateTableID,l =>
    match allocateTableID l.state with
    | (.ok id,s) => (.ok (),{ l with state := s, allocated := id::l.allocated })
    | (.error e,s) => (.error e,{ l with state := s })
  | .restart,l =>
    ((startScanned (stop l.state).2).1,⟨(startScanned (stop l.state).2).2,l.dropped,[]⟩)
  | .reopen,l =>
    let s := startScanned { State.new with heap := l.state.heap }
    (s.1,⟨s.2,l.dropped,[]⟩)

/-- Some stored table that is not the first one has a number that is not below those of the dropped
tables. -/
def Covered (l : Ledger) : Prop :=
  ∀ d ∈ l.dropped, ∃ row ∈ l.state.heap.tables.rows.tail, d ≤ row.1

/-- The counter does not wrap around, tables are registered with numbers that were allocated for them,
and no restart sets the counter back below a dropped table. Heap writes may fail. -/
def Sparing : TableAct → Ledger → Prop
  | .call _ op,l => op.NotLast l.state ∧ ∀ id ∈ op.takes, id ∈ l.allocated
  | .allocateTableID,l => ∀ c, l.state.cache = some c → c.nextTableID+1≠0
  | .restart,l => Covered l
  | .reopen,l => Covered l

/-- The catalog without the grants on these tables. -/
def Cache.without (c : Cache) (ids : List UInt64) : Cache :=
  { c with grants := fun roleID => (c.grants roleID).filter (·.tableID ∉ ids) }

/-- A table in memory has the number. -/
def Cache.HasID (c : Cache) (id : UInt64) : Prop :=
  ∃ tableName ti, c.tables tableName = some ti ∧ ti.tableID = id

/-- The tables in memory have numbers of their own that the counter has given out. -/
structure Cache.Numbered (c : Cache) (dropped allocated : List UInt64) : Prop where
  numbers : Numbers c.nextTableID c.HasID dropped allocated
  distinct : ∀ {n n' ti ti'}, c.tables n = some ti → c.tables n' = some ti' →
    ti.tableID = ti'.tableID → n = n'

/-- The stored tables are filed under their numbers, of which none is that of a dropped table. -/
def Kept (dropped : List UInt64) (rows : UInt64 → Option TableInfo) : Prop :=
  ∀ id ti, rows id = some ti → ti.tableID = id ∧ 1 ≤ id ∧ id+1≠0 ∧ id ∉ dropped

/-- No dropped number is stored, in memory or still to come. -/
structure Ledger.Fine (l : Ledger) : Prop where
  dropped : ∀ d ∈ l.dropped, 1 ≤ d
  rows : Kept l.dropped l.state.heap.view.tables
  cache : ∀ c, l.state.cache = some c → c.Numbered l.dropped l.allocated

section Rows
variable {dropped : List UInt64} {v : View} {w : Write} {info : TableInfo} {tx : UInt64} {n : ℕ}
  {faults : ℕ → Option SQL.Err} {l : List Step} {h h' : SysHeap} {c : Cache} {ch : Change}

lemma Kept.insert {rows : UInt64 → Option TableInfo} (hk : Kept dropped rows)
    (hid : 1 ≤ info.tableID ∧ info.tableID+1≠0 ∧ info.tableID ∉ dropped) :
    Kept dropped (Function.update rows info.tableID (some info)) := by
  intro id ti hti
  rw [Function.update_apply] at hti
  split at hti
  · obtain rfl := Option.some.inj hti
    obtain rfl := ‹id = info.tableID›
    exact ⟨rfl,hid⟩
  · exact hk id ti hti

lemma Kept.delete {rows : UInt64 → Option TableInfo} (hk : Kept dropped rows) (i : UInt64) :
    Kept (i::dropped) (Function.update rows i none) := by
  intro id ti hti
  rw [Function.update_apply] at hti
  split at hti
  · cases hti
  · obtain ⟨h1,h2,h3,h4⟩ := hk id ti hti
    exact ⟨h1,h2,h3,by simp [*]⟩

lemma Kept.mono {rows : UInt64 → Option TableInfo} {dropped' : List UInt64} (hk : Kept dropped rows)
    (h : ∀ {i}, i ∈ dropped' → i ∈ dropped) : Kept dropped' rows := by
  intro id ti hti
  obtain ⟨h1,h2,h3,h4⟩ := hk id ti hti
  exact ⟨h1,h2,h3,fun hm => h4 (h hm)⟩

/-- One write keeps the tables in order if a table that it inserts has a good number. -/
lemma Kept.effect (hk : Kept dropped v.tables) (hw : ∀ info, w = .insertTable info →
    1 ≤ info.tableID ∧ info.tableID+1≠0 ∧ info.tableID ∉ dropped) :
    Kept dropped (w.effect v).tables := by
  cases w with
  | insertTable info => exact hk.insert (hw info rfl)
  | deleteTable id => exact (hk.delete id).mono (List.mem_cons_of_mem _)
  | _ => exact hk

/-- Whether or not a write fails on the way, the tables stay in order. -/
lemma Kept.runSteps (hl : ∀ step ∈ l, ∀ info, step.write = .insertTable info →
    1 ≤ info.tableID ∧ info.tableID+1≠0 ∧ info.tableID ∉ dropped) (hk : Kept dropped h.view.tables) :
    Kept dropped (Catalog.runSteps tx faults n l h).2.view.tables := by
  induction l generalizing n h with
  | nil => exact hk
  | cons step l ih =>
    obtain ⟨hstep,hl⟩ := List.forall_mem_cons.mp hl
    rw [Catalog.runSteps]
    cases happly : step.write.apply tx (faults n) h with
    | ok h₁ =>
      refine ih hl ?_
      rw [(Write.apply_ok happly).2]
      exact hk.effect hstep
    | error e =>
      cases step.text with
      | some text => exact hk
      | none => exact ih hl hk

lemma inserts_of_steps {env : Env} {t : Ticket} {step : Step} (hstep : step ∈ steps env tx c t ch)
    (hinfo : step.write = .insertTable info) : ch = .createTable info ∨ ch = .registerTable info := by
  cases ch <;> simp only [steps,rowSteps,historySteps,auditLog,updateMeta,List.mem_append,List.mem_cons,
    List.mem_map,List.not_mem_nil,or_false,List.append_nil] at hstep <;> aesop

/-- Where no error is ignored, a run that ends well has made all writes. -/
lemma allGo_of_runSteps (hl : ∀ step ∈ l, step.text≠none)
    (hrun : Catalog.runSteps tx faults n l h = (.ok (),h')) : allGo tx faults n l h = some h' := by
  induction l generalizing n h with
  | nil => exact congrArg some (Prod.mk.inj hrun).2
  | cons step l ih =>
    obtain ⟨hstep,hl⟩ := List.forall_mem_cons.mp hl
    rw [Catalog.runSteps] at hrun
    rw [allGo]
    cases happly : step.write.apply tx (faults n) h with
    | ok h₁ =>
      rw [happly] at hrun
      exact ih hl hrun
    | error e =>
      obtain ⟨text,htext⟩ := Option.ne_none_iff_exists'.mp hstep
      rw [happly,htext] at hrun
      cases hrun

end Rows

section Load
variable {h : SysHeap} {dropped : List UInt64}

lemma loadScanned_eq (h : SysHeap) : (loadScanned h).tables = ((scanned h.tables).map Prod.snd).foldl
      (fun (m : Bytes → Option TableInfo) ti => Function.update m ti.tableName (some ti)) (fun _ => none) ∧
    (loadScanned h).nextTableID =
      (((scanned h.tables).map Prod.snd).map TableInfo.tableID).foldl above 1 := by
  rw [loadScanned,foldl_loadTable,foldl_loadUser,foldl_loadRole,foldl_loadGrant,foldl_loadUserRole]
  exact ⟨rfl,rfl⟩

lemma mem_of_foldl_update {l : List TableInfo} {m : Bytes → Option TableInfo} {n : Bytes} {ti : TableInfo}
    (h : l.foldl (fun (m : Bytes → Option TableInfo) ti => Function.update m ti.tableName (some ti)) m n =
      some ti) :
    m n = some ti ∨ ti ∈ l ∧ ti.tableName = n := by
  induction l generalizing m with
  | nil => exact .inl h
  | cons t l ih =>
    obtain hm | ⟨hmem,hname⟩ := ih h
    · simp only [Function.update_apply] at hm
      split at hm
      · obtain rfl := Option.some.inj hm
        exact .inr ⟨List.mem_cons_self ..,‹n = t.tableName›.symm⟩
      · exact .inl hm
    · exact .inr ⟨List.mem_cons_of_mem _ hmem,hname⟩

/-- The catalog that is loaded: its tables are stored, and its counter is above them, and so above the
dropped ones if one of its tables covers them. -/
lemma numbered_load (hd : ∀ d ∈ dropped, 1 ≤ d) (hk : Kept dropped h.view.tables)
    (hcov : ∀ d ∈ dropped, ∃ row ∈ h.tables.rows.tail, d ≤ row.1) :
    (loadScanned h).Numbered dropped [] := by
  obtain ⟨htables,hnext⟩ := loadScanned_eq h
  have hrow : ∀ row ∈ scanned h.tables, h.view.tables row.1 = some row.2 := fun row hrow =>
    VersionTable.mem_rows.mp (List.mem_of_mem_tail hrow)
  have hids : ∀ id ∈ ((scanned h.tables).map Prod.snd).map TableInfo.tableID, id+1≠0 := by
    intro id hid
    obtain ⟨ti,hti,rfl⟩ := List.mem_map.mp hid
    obtain ⟨row,hmem,rfl⟩ := List.mem_map.mp hti
    obtain ⟨hkey,-,hlast,-⟩ := hk _ _ (hrow row hmem)
    exact hkey ▸ hlast
  obtain ⟨hpos,hlt⟩ := lt_foldl_above 1 hids
  rw [← hnext] at hpos hlt
  have hlive : ∀ {n ti}, (loadScanned h).tables n = some ti → ti.tableName = n ∧
      h.view.tables ti.tableID = some ti ∧ ti.tableID < (loadScanned h).nextTableID := by
    intro n ti hti
    rw [htables] at hti
    obtain hnone | ⟨hmem,hname⟩ := mem_of_foldl_update hti
    · cases hnone
    obtain ⟨row,hmem',rfl⟩ := List.mem_map.mp hmem
    have hstored := hrow row hmem'
    exact ⟨hname,(hk _ _ hstored).1 ▸ hstored,hlt _ (List.mem_map_of_mem hmem)⟩
  refine ⟨⟨hpos,?_,fun {d} hmem => ⟨hd d hmem,?_⟩,nofun⟩,?_⟩
  · rintro id ⟨n,ti,hti,rfl⟩
    obtain ⟨-,hstored,hbelow⟩ := hlive hti
    obtain ⟨-,h1,-,h2⟩ := hk _ _ hstored
    exact ⟨h1,hbelow,h2,List.not_mem_nil⟩
  · obtain ⟨row,hmem,hle⟩ := hcov d hmem
    have hkey := (hk _ _ (hrow row hmem)).1
    exact hle.trans_lt (hkey ▸ hlt _ (List.mem_map_of_mem (List.mem_map_of_mem hmem)))
  · intro n n' ti ti' hti hti' heq
    obtain ⟨hname,hstored,-⟩ := hlive hti
    obtain ⟨hname',hstored',-⟩ := hlive hti'
    rw [heq] at hstored
    obtain rfl := Option.some.inj (hstored.symm.trans hstored')
    exact hname.symm.trans hname'

end Load

section Ledgers
variable {deps : Deps} {l : Ledger} {s : State} {c : Cache} {op : Op} {ch : Change}
  {dropped allocated : List UInt64}

lemma hasID_update {n : Bytes} {info : TableInfo} {c' : Cache} {id : UInt64}
    (hc' : c'.tables = Function.update c.tables n (some info)) (h : c'.HasID id) :
    id = info.tableID ∨ c.HasID id := by
  obtain ⟨m,ti,hti,rfl⟩ := h
  rw [hc',Function.update_apply] at hti
  split at hti
  · exact .inl (congrArg _ (Option.some.inj hti).symm)
  · exact .inr ⟨m,ti,hti,rfl⟩

/-- A table with a new number is put in. -/
lemma distinct_insert {n : Bytes} {info : TableInfo} {c' : Cache} (h : c.Numbered dropped allocated)
    (hc' : c'.tables = Function.update c.tables n (some info)) (hnew : ¬c.HasID info.tableID)
    {m m' : Bytes} {ti ti' : TableInfo} (hti : c'.tables m = some ti) (hti' : c'.tables m' = some ti')
    (heq : ti.tableID = ti'.tableID) : m = m' := by
  rw [hc',Function.update_apply] at hti hti'
  split at hti <;> split at hti'
  · rw [‹m = n›,‹m' = n›]
  · obtain rfl := Option.some.inj hti
    exact (hnew ⟨m',ti',hti',heq.symm⟩).elim
  · obtain rfl := Option.some.inj hti'
    exact (hnew ⟨m,ti,hti,heq⟩).elim
  · exact h.distinct hti hti' heq

lemma Op.drops_dropTable {tableName : Bytes} {info : TableInfo} (hc : s.cache = some c)
    (h : c.tables tableName = some info) : (Op.dropTable tableName).drops s = [info.tableID] := by
  simp [Op.drops,getTable,State.opened,hc,found,bind,Except.bind,h]

/-- What the operation publishes. -/
lemma Cache.Numbered.publish (h : c.Numbered dropped allocated) (hc : s.cache = some c)
    (hm : Made c op ch) (hlast : op.NotLast s) (htakes : ∀ id ∈ op.takes, id ∈ allocated) :
    (c.publish ch).Numbered (op.drops s++dropped) (allocated.filter (· ∉ op.takes)) := by
  have hn := h.numbers
  cases hm with
  | createTable _ hnone =>
    exact ⟨(hn.create (hlast c hc) fun hi => hasID_update rfl hi).fewer List.mem_of_mem_filter,
      distinct_insert h rfl fun hid => lt_irrefl _ (hn.ofLive hid).2.1⟩
  | @registerTable tableID _ _ _ _ hnone =>
    have hmem : tableID ∈ allocated := htakes _ (List.mem_singleton_self _)
    refine ⟨hn.register hmem (fun hi => hasID_update rfl hi) fun hi => ?_,
      distinct_insert h rfl fun hid => (hn.ofLive hid).2.2.2 hmem⟩
    simpa [Op.takes] using hi
  | @dropTable tableName info ht =>
    rw [Op.drops_dropTable hc ht]
    have htables : (c.publish (.dropTable tableName info)).tables =
      Function.update c.tables tableName none :=
      rfl
    refine ⟨(hn.drop ⟨tableName,info,ht,rfl⟩ ?_).fewer List.mem_of_mem_filter,?_⟩
    · rintro i ⟨n,ti,hti,rfl⟩
      rw [htables,Function.update_apply] at hti
      split at hti
      · cases hti
      · exact ⟨fun heq => ‹n≠tableName› (h.distinct hti ht heq),n,ti,hti,rfl⟩
    · intro n n' ti ti' hti hti' heq
      rw [htables,Function.update_apply] at hti hti'
      split at hti <;> split at hti'
      all_goals first | cases hti | cases hti' | exact h.distinct hti hti' heq
  | _ => exact ⟨hn.fewer List.mem_of_mem_filter,h.distinct⟩

/-- The number of a table that the operation stores is good. -/
lemma inserted_number (h : c.Numbered dropped allocated) (hc : s.cache = some c) (hm : Made c op ch)
    (hlast : op.NotLast s) (htakes : ∀ id ∈ op.takes, id ∈ allocated) {info : TableInfo}
    (hch : ch = .createTable info ∨ ch = .registerTable info) :
    1 ≤ info.tableID ∧ info.tableID+1≠0 ∧ info.tableID ∉ dropped := by
  have hn := h.numbers
  cases hm with
  | createTable _ _ =>
    obtain heq | heq := hch <;> cases heq
    exact ⟨hn.pos,hlast c hc,fun hd => lt_irrefl _ (hn.ofDropped hd).2⟩
  | registerTable _ _ =>
    obtain heq | heq := hch <;> cases heq
    obtain ⟨h1,-,h2⟩ := hn.ofAllocated (htakes _ (List.mem_singleton_self _))
    exact ⟨h1,hlast,h2⟩
  | _ => obtain heq | heq := hch <;> cases heq

/-- The rows after the writes of an operation, also if one of them has failed. -/
lemma rows_run (hf : l.Fine) (hc : l.state.cache = some c) (hm : Made c op ch) (hlast : op.NotLast l.state)
    (htakes : ∀ id ∈ op.takes, id ∈ l.allocated) (env : Env) (t : Ticket) :
    Kept l.dropped (runSteps (l.state.nextTxID+1) env.faults 0 (steps env (l.state.nextTxID+1) c t ch)
      l.state.heap).2.view.tables :=
  hf.rows.runSteps fun _ hstep _ hinfo =>
    inserted_number (hf.cache c hc) hc hm hlast htakes (inserts_of_steps hstep hinfo)

/-- The rows after an operation that has ended well. -/
lemma rows_done {env : Env} {t : Ticket} {h : SysHeap} (hf : l.Fine) (hc : l.state.cache = some c)
    (hm : Made c op ch) (hlast : op.NotLast l.state) (htakes : ∀ id ∈ op.takes, id ∈ l.allocated)
    (hrun : runSteps (l.state.nextTxID+1) env.faults 0 (steps env (l.state.nextTxID+1) c t ch)
      l.state.heap = (.ok (),h)) : Kept (op.drops l.state++l.dropped) h.view.tables := by
  have hkept := rows_run hf hc hm hlast htakes env t
  rw [hrun] at hkept
  cases hm with
  | @dropTable tableName info ht =>
    have hgo := allGo_of_runSteps (by simp [steps,rowSteps,historySteps,auditLog,updateMeta]) hrun
    rw [Op.drops_dropTable hc ht,view_of_allGo hgo,effects_steps]
    exact hf.rows.delete info.tableID
  | _ => exact hkept

lemma dropped_pos (hf : l.Fine) {d : UInt64} (hd : d ∈ op.drops l.state++l.dropped) : 1 ≤ d := by
  obtain hd | hd := List.mem_append.mp hd
  · cases op with
    | dropTable tableName =>
      rw [Op.drops] at hd
      split at hd
      · rename_i ti hti
        obtain ⟨c,hc,ht⟩ := Fallible.bind_eq_ok.mp hti
        obtain rfl := List.mem_singleton.mp hd
        exact ((hf.cache c (found_eq_ok.mp hc)).numbers.ofLive ⟨tableName,ti,found_eq_ok.mp ht,rfl⟩).1
      · cases hd
    | _ => cases hd
  · exact hf.dropped d hd

lemma Ledger.Fine.call (hf : l.Fine) (env : Env) (hlast : op.NotLast l.state)
    (htakes : ∀ id ∈ op.takes, id ∈ l.allocated) : (Ledger.step deps (.call env op) l).2.Fine := by
  have ho := call_outcome deps env op l.state
  rw [Ledger.step]
  generalize Catalog.call deps env op l.state = r at ho
  cases ho with
  | refused _ => exact hf
  | unhashed _ _ _ _ => exact ⟨hf.dropped,hf.rows,hf.cache⟩
  | @failed c t ch e h hc _ ht hch hrun =>
    have hm := made_of_checked ht hch
    refine ⟨hf.dropped,?_,hf.cache⟩
    have hkept := rows_run hf hc hm hlast htakes env t
    rw [hrun] at hkept
    exact hkept
  | done hc _ ht hch hrun =>
    have hm := made_of_checked ht hch
    refine ⟨fun d => dropped_pos hf,rows_done hf hc hm hlast htakes hrun,?_⟩
    rintro c' ⟨⟩
    exact (hf.cache _ hc).publish hc hm hlast htakes

/-- A start finds the catalog running, fails, or loads it. -/
lemma fine_start (hf : l.Fine) (hcov : Covered l) (hheap : s.heap = l.state.heap)
    (hcache : ∀ c, s.cache = some c → l.state.cache = some c) :
    Ledger.Fine ⟨(startScanned s).2,l.dropped,[]⟩ := by
  have hrows : Kept l.dropped s.heap.view.tables := hheap ▸ hf.rows
  rw [startScanned]
  split
  · refine ⟨hf.dropped,hrows,fun c hc => ?_⟩
    have h := hf.cache c (hcache c hc)
    exact ⟨h.numbers.fewer nofun,h.distinct⟩
  · rename_i hnone
    split
    · refine ⟨hf.dropped,hrows,fun c hc => ?_⟩
      exact nomatch hnone.symm.trans hc
    · rename_i h hboot
      have htables : h.tables = l.state.heap.tables := by
        rw [← hheap]
        unfold bootstrap at hboot
        split at hboot
        · cases hboot
          rfl
        · split at hboot <;> cases hboot
          rfl
      have hkept : Kept l.dropped h.view.tables := by
        rw [SysHeap.view,htables]
        exact hf.rows
      refine ⟨hf.dropped,hkept,?_⟩
      rintro c ⟨⟩
      refine numbered_load hf.dropped hkept ?_
      rw [htables]
      exact hcov

lemma stop_kept (s : State) : (stop s).2.heap = s.heap ∧ ∀ c, (stop s).2.cache = some c →
      s.cache = some c := by
  rw [stop]
  split
  · exact ⟨rfl,fun c hc => hc⟩
  · split
    · exact ⟨rfl,fun c hc => hc⟩
    · exact ⟨rfl,fun c hc => absurd hc (Option.some_ne_none c).symm⟩

theorem Ledger.Fine.step (a : TableAct) (l : Ledger) (h : l.Fine) (hok : Sparing a l) :
    (Ledger.step deps a l).2.Fine := by
  cases a with
  | call env op => exact h.call env hok.1 hok.2
  | restart => exact fine_start h hok (stop_kept l.state).1 (stop_kept l.state).2
  | reopen => exact fine_start h hok rfl nofun
  | allocateTableID =>
    rw [Ledger.step,allocateTableID]
    cases hc : l.state.cache with
    | none => exact ⟨h.dropped,h.rows,h.cache⟩
    | some c =>
      refine ⟨h.dropped,h.rows,?_⟩
      rintro c' ⟨⟩
      exact ⟨(h.cache c hc).numbers.allocate (hok c hc),(h.cache c hc).distinct⟩

lemma fine_new : Ledger.new.Fine := by
  have hrows : Kept [] Ledger.new.state.heap.view.tables :=
    fun id ti hti => nomatch (show none = some ti from hti)
  refine ⟨nofun,hrows,?_⟩
  rintro c ⟨⟩
  exact numbered_load nofun hrows nofun

lemma allows_without (c : Cache) {ids : List UInt64} {tableID : UInt64} (h0 : (0 : UInt64) ∉ ids)
    (hid : tableID ∉ ids) (userID : UInt64) (a : Action) :
    (c.without ids).allows userID tableID a = c.allows userID tableID a := by
  have hany : ∀ roleID, ((c.grants roleID).filter (·.tableID ∉ ids)).any
      (fun gi => (gi.tableID = 0 || gi.tableID = tableID) && gi.action = a) =
        (c.grants roleID).any fun gi => (gi.tableID = 0 || gi.tableID = tableID) && gi.action = a := by
    intro roleID
    rw [Bool.eq_iff_iff,List.any_eq_true,List.any_eq_true]
    refine exists_congr fun gi => ?_
    simp only [List.mem_filter,Bool.and_eq_true,Bool.or_eq_true,decide_eq_true_eq]
    constructor
    · rintro ⟨⟨hmem,-⟩,hgi⟩
      exact ⟨hmem,hgi⟩
    · rintro ⟨hmem,ht,ha⟩
      refine ⟨⟨hmem,?_⟩,ht,ha⟩
      obtain ht | ht := ht
      · rwa [ht]
      · rwa [ht]
  simp only [Cache.allows,Cache.without,hany]

/-- No table has the number of one that was dropped, and what is permitted on it is permitted without
the grants on tables that were dropped. -/
theorem dropped_numbers_not_reused {run : List TableAct}
    (hok : Machine.Allowed (Ledger.step deps) Sparing run Ledger.new) :
    let l := (Machine.run (Ledger.step deps) run Ledger.new).2
    ∀ c, l.state.cache = some c → ∀ tableName ti, c.tables tableName = some ti →
      ti.tableID ∉ l.dropped ∧ ∀ userID a, checkPermission l.state userID ti.tableID a.string =
        .ok ((c.without l.dropped).allows userID ti.tableID a) := by
  have hinv := (Machine.run_invariant (Q := fun _ => True)
    (fun a l hl ha => ⟨Ledger.Fine.step a l hl ha,trivial⟩) fine_new hok).1
  generalize (Machine.run (Ledger.step deps) run Ledger.new).2 = l at hinv
  intro _ c hc tableName ti hti
  have hn := (hinv.cache c hc).numbers
  have hid := (hn.ofLive ⟨tableName,ti,hti,rfl⟩).2.2.1
  refine ⟨hid,fun userID a => ?_⟩
  rw [checkPermission_eq hc,allows_without c (fun h0 => ?_) hid]
  exact absurd (hn.ofDropped h0).1 (by decide)

end Ledgers

def quietCall (op : Op) : TableAct := .call ⟨0,0,fun _ => none⟩ op

/-- Every system table has a row that the restart loses, and one that it loads. -/
def reuseOps : List TableAct :=
  ([.createTable (ascii "sql") (ascii "a") (ascii "x"),.createUser (ascii "eve") (ascii "pw") false,
    .createUser (ascii "ada") (ascii "pw") false,.createRole (ascii "writer"),.createRole (ascii "reader"),
    .assignRole (ascii "eve") (ascii "writer"),.assignRole (ascii "ada") (ascii "reader"),
    .grant (ascii "writer") (ascii "a") (ascii "READ"),.grant (ascii "reader") (ascii "a") (ascii "READ"),
    .dropTable (ascii "a")].map quietCall)++
  [.restart,quietCall (.createTable (ascii "sql") (ascii "b") (ascii "x"))]

theorem dropped_number_reused :
    let r := Machine.run (Ledger.step plainDeps) reuseOps Ledger.new
    r.1 = List.replicate 12 (.ok ()) ∧ r.2.dropped = [1] ∧
      getTable r.2.state (ascii "b") = .ok ⟨1,ascii "sql",ascii "b",ascii "x",1⟩ ∧
      checkPermission r.2.state 2 1 (ascii "READ") = .ok true := by
  decide +kernel

/-- With two later tables that stay, the number is not given out again: the restart loses the first of
them and loads the second. -/
def keepOps : List TableAct :=
  ([.createTable (ascii "sql") (ascii "a") (ascii "x"),.createTable (ascii "sql") (ascii "b") (ascii "x"),
    .createTable (ascii "sql") (ascii "c") (ascii "x"),.dropTable (ascii "a")].map quietCall)++
  [.restart,quietCall (.createTable (ascii "sql") (ascii "d") (ascii "x"))]

theorem dropped_number_kept : Machine.Allowed (Ledger.step plainDeps) Sparing keepOps Ledger.new ∧
    (let r := Machine.run (Ledger.step plainDeps) keepOps Ledger.new
    r.1 = List.replicate 6 (.ok ()) ∧ r.2.dropped = [1] ∧
      getTable r.2.state (ascii "d") = .ok ⟨4,ascii "sql",ascii "d",ascii "x",1⟩ ∧
      ∀ c, r.2.state.cache = some c → ∀ tableName ti, c.tables tableName = some ti →
        ti.tableID ∉ r.2.dropped) := by
  have hok : Machine.Allowed (Ledger.step plainDeps) Sparing keepOps Ledger.new := by
    refine ⟨⟨?_,nofun⟩,⟨?_,nofun⟩,⟨?_,nofun⟩,⟨trivial,nofun⟩,?_,⟨?_,nofun⟩,trivial⟩
    case refine_4 =>
      have hdropped : (Machine.run (Ledger.step plainDeps) (keepOps.take 4) Ledger.new).2.dropped =
        [1] := by
        decide +kernel
      intro d hd
      obtain rfl : d = 1 := List.mem_singleton.mp (hdropped ▸ hd)
      exact ⟨(3,⟨3,ascii "sql",ascii "c",ascii "x",1⟩),by decide +kernel,by decide⟩
    all_goals
      rintro c ⟨⟩
      decide +kernel
  refine ⟨hok,by decide +kernel,by decide +kernel,by decide +kernel,fun c hc tableName ti hti => ?_⟩
  exact (dropped_numbers_not_reused hok c hc tableName ti hti).1

end Plomvix.Catalog
