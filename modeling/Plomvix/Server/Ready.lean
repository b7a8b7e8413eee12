import Plomvix.Server.Answers

/-! When the session says that it is ready: once after the startup, and then once for every Query
and every Sync, if no statement of a Query is refused and none of an Execute goes through. -/
namespace Plomvix.Server
open Lib Engine Planner

abbrev CString := { b : Bytes // (0 : UInt8) ∉ b }

/-- What a client sends. -/
inductive Body
  | query (sql : CString)
  | parse (name sql : CString) (oids : List ℕ)
  | bind (portal stmt : CString) (formats : List Bool) (params : List (Option Bytes))
      (resultFormats : List Bool)
  | execute (portal : CString) (maxRows : ℕ)
  | describe (portal : Bool) (name : CString)
  | close (portal : Bool) (name : CString)
  | sync

def formatCodes (l : List Bool) : Bytes :=
  beBytes 2 l.length++l.flatMap fun binary => [0,if binary then 1 else 0]

def bindTail (formats : List Bool) (params : List (Option Bytes)) (resultFormats : List Bool) : Bytes :=
  formatCodes formats++(beBytes 2 params.length++params.flatMap fun
    | none => [0xff,0xff,0xff,0xff]
    | some b => beBytes 4 b.length++b)++formatCodes resultFormats

def targetByte (portal : Bool) : UInt8 := if portal then 80 else 83

namespace Body

def typ : Body → UInt8
  | query _ => msgQuery
  | parse _ _ _ => msgParse
  | bind _ _ _ _ _ => msgBind
  | execute _ _ => msgExecute
  | describe _ _ => msgDescribeStmt
  | close _ _ => msgCloseStmt
  | sync => msgSync

def payload : Body → Bytes
  | query sql => sql.val++[0]
  | parse name sql oids => name.val++0::(sql.val++0::(beBytes 2 oids.length++oids.flatMap (beBytes 4)))
  | bind portal stmt formats params resultFormats =>
    portal.val++0::(stmt.val++0::bindTail formats params resultFormats)
  | execute portal maxRows => portal.val++0::beBytes 4 maxRows
  | describe portal name => targetByte portal::name.val++[0]
  | close portal name => targetByte portal::name.val++[0]
  | sync => []

/-- The counts and lengths fit their fields. -/
def Fits : Body → Prop
  | parse _ _ oids => oids.length < 2^16 ∧ ∀ oid ∈ oids, oid < 2^32
  | bind _ _ formats params resultFormats =>
    formats.length < 2^16 ∧ params.length < 2^16 ∧ resultFormats.length < 2^16 ∧
      ∀ param ∈ params, ∀ b ∈ param, b.length < 2^31
  | execute _ maxRows => maxRows < 2^32
  | _ => True

end Body

/-- A message as a client may send it; the server takes none that is longer. -/
structure ClientMessage where
  body : Body
  fits : body.Fits
  short : body.payload.length ≤ 2^24

namespace ClientMessage
variable (m : ClientMessage)

def encode : Bytes := m.body.typ::(beBytes 4 (m.body.payload.length+4)++m.body.payload)

def isQuery : Bool := match m.body with
  | .query _ => true
  | _ => false

def isSync : Bool := match m.body with
  | .sync => true
  | _ => false

end ClientMessage

lemma Body.typ_ne_terminate (body : Body) : body.typ≠msgTerminate := by
    cases body <;> simp [Body.typ] <;> decide

section Serve
variable {Stmt R : Type} (deps : Deps Stmt R)

def Session.ready (s : Session R) : ℕ := countPackets msgReadyForQuery s.sent

/-- The messages one after another. -/
def serve : List ClientMessage → Session R → Option (Session R)
  | [],s => some s
  | m::ms,s => (handleMessage deps m.body.typ m.body.payload s).bind (serve ms)

/-- The statement is answered, be it as a probe of the catalog. -/
def accepts (router : R) (sql : Bytes) : Bool :=
  (mockAnswer deps.lib sql).isSome || match deps.parse sql with
    | .error _ => false
    | .ok stmt => (deps.route router stmt).1.isOk

def boundSQL (s : Session R) (portalName : Bytes) : Option Bytes :=
  (s.portals portalName).bind fun portal => (s.statements portal.planName).map fun plan =>
    substituteParams deps plan.sql 0 portal.parameters

/-- The statement of a Query is accepted, and that of an Execute is not. -/
def Balanced (s : Session R) (m : ClientMessage) : Prop :=
  match m.body with
  | .query sql => accepts deps s.router (sql.val++[0]) = true
  | .execute portal _ => ∀ sql ∈ boundSQL deps s portal.val, accepts deps s.router sql = false
  | _ => True

end Serve

section Split
variable {a b : Bytes}

lemma splitOn_append (ha : (0 : UInt8) ∉ a) (b : Bytes) : (a++0::b).splitOn 0 = a::b.splitOn 0 := by
  refine List.splitOnP_append_cons_of_forall_mem (fun x hx => ?_) 0 rfl b
  simp only [beq_eq_false_iff_ne]
  rintro rfl
  exact ha hx

lemma splitNull_isPrefix (b : Bytes) : splitNull b <+: b.splitOn 0 := by
  rw [splitNull]
  split_ifs
  · exact List.dropLast_prefix _
  · exact List.prefix_rfl

lemma splitNull_append (ha : (0 : UInt8) ∉ a) (b : Bytes) : ∃ rest, splitNull (a++0::b) = a::rest := by
  rw [splitNull,splitOn_append ha]
  split_ifs
  · exact ⟨_,List.dropLast_cons_of_ne_nil (List.splitOn_ne_nil 0 b)⟩
  · exact ⟨_,rfl⟩

lemma splitOn_head (b : Bytes) : ∃ rest, b.splitOn 0 = b.takeWhile (·≠0)::rest := by
  induction b with
  | nil => exact ⟨[],rfl⟩
  | cons c b ih =>
    obtain ⟨rest,hrest⟩ := ih
    by_cases hc : c = 0
    · subst hc
      exact ⟨_,splitOn_append List.not_mem_nil b⟩
    · refine ⟨rest,?_⟩
      rw [List.takeWhile_cons_of_pos (by simpa using hc)]
      have hcons : (c::b).splitOn 0 = (b.splitOn 0).modifyHead (c::·) := by
        rw [List.splitOn,List.splitOnP_cons_eq_if_modifyHead,if_neg (by simpa using hc)]
        rfl
      rw [hcons,hrest]
      rfl

end Split

/-- The format codes begin with a null byte, so nothing of the parameters is in the third part of a
Bind. -/
lemma length_bindTail_takeWhile (formats : List Bool) (params : List (Option Bytes))
    (resultFormats : List Bool) :
    ((bindTail formats params resultFormats).takeWhile (·≠0)).length ≤ 2 := by
  have hshort : ∀ (x y : UInt8) (l : Bytes), ((x::y::0::l).takeWhile (·≠0)).length ≤ 2 := by
    intro x y l
    by_cases hx : x = 0 <;> by_cases hy : y = 0 <;> simp [hx,hy]
  cases formats with
  | nil => exact Nat.zero_le 2
  | cons binary formats => exact hshort _ _ _

section Step
variable {Stmt R : Type} {deps : Deps Stmt R} {s : Session R}

lemma ready_write (s : Session R) (p : Packet) :
    (s.write p).ready = s.ready+if p.typ = msgReadyForQuery then 1 else 0 := by
  rw [Session.ready,Session.write,countPackets_append,countPackets_packet]
  simp [Session.ready]

lemma ready_write_of_ne {p : Packet} (h : p.typ≠msgReadyForQuery) :
    (s.write p).ready = s.ready := by rw [ready_write,if_neg h]; rfl

@[simp] lemma ready_writeError (s : Session R) (code : String) (message : Bytes) :
    (s.writeError code message).ready = s.ready :=
  ready_write_of_ne (show msgErrorResponse≠msgReadyForQuery by decide)

lemma ready_writeAll (s : Session R) (ps : List Packet) :
    (s.writeAll ps).ready = s.ready+ps.countP (·.typ == msgReadyForQuery) := by
  rw [Session.ready,Session.writeAll,countPackets_append,countPackets,countPackets,List.countP_map]
  rfl

lemma countP_answer (lib : ServerLib) (schema : Schema) (rows : List Row) (tag : Bytes) :
    (rowDescription schema::rows.map (dataRow lib)++[commandComplete tag,readyForQuery idle]).countP
      (·.typ == msgReadyForQuery) = 1 := by
  have hrows : (rows.map (dataRow lib)).countP (·.typ == msgReadyForQuery) = 0 := by
    rw [List.countP_eq_zero]
    intro p hp
    obtain ⟨row,-,rfl⟩ := List.mem_map.mp hp
    exact Bool.false_ne_true
  rw [List.countP_append,List.countP_cons,hrows]
  rfl

lemma countP_resultPackets (deps : Deps Stmt R) (result : Result) :
    (resultPackets deps result).countP (·.typ == msgReadyForQuery) = 1 := by
  cases hstream : result.stream with
  | none =>
    rw [resultPackets,hstream]
    rfl
  | some stream =>
    rw [resultPackets_of_stream hstream]
    exact countP_answer ..

lemma bindValues_of_short {rest : Bytes} (h : rest.length ≤ 2) : bindValues deps rest = some [] := by
  rw [bindValues]
  by_cases h2 : 2 ≤ rest.length
  · rw [if_pos h2]
    exact if_neg (by omega)
  · exact if_neg h2

lemma handleBind_body (portal stmt : CString) (formats : List Bool) (params : List (Option Bytes))
    (resultFormats : List Bool) :
    ∃ s', handleBind deps (Body.bind portal stmt formats params resultFormats).payload s = some s' ∧
      s'.ready = s.ready := by
  obtain ⟨more,htail⟩ := splitOn_head (bindTail formats params resultFormats)
  have hparts := splitNull_isPrefix (Body.bind portal stmt formats params resultFormats).payload
  rw [Body.payload,splitOn_append portal.property,splitOn_append stmt.property,htail] at hparts
  rw [handleBind]
  split
  · rename_i portalName stmtName rest parts heq
    rw [Body.payload] at heq
    rw [heq] at hparts
    have hrest : rest = (bindTail formats params resultFormats).takeWhile (·≠0) := by
      simp only [List.cons_prefix_cons] at hparts
      exact hparts.2.2.1
    rw [bindValues_of_short (hrest ▸ length_bindTail_takeWhile formats params resultFormats)]
    split_ifs
    · exact ⟨_,rfl,ready_writeError ..⟩
    · exact ⟨_,rfl,ready_write_of_ne (by decide)⟩
  · exact ⟨_,rfl,ready_writeError ..⟩

lemma ready_executeSQL (deps : Deps Stmt R) (sql : Bytes) (s : Session R) :
    (executeSQL deps sql s).ready = s.ready+if accepts deps s.router sql then 1 else 0 := by
  rw [executeSQL,accepts]
  cases hmock : mockAnswer deps.lib sql with
  | some answer => exact (ready_writeAll ..).trans (congrArg _ (countP_answer ..))
  | none =>
    cases hparse : deps.parse sql with
    | error e => exact ready_writeError ..
    | ok stmt =>
      rcases hroute : deps.route s.router stmt with ⟨r,router⟩
      simp only [hroute]
      cases r with
      | error e => exact ready_writeError ..
      | ok result => exact (ready_writeAll ..).trans (congrArg _ (countP_resultPackets deps result))

/-- What a message adds to the number of times that the session is ready. -/
def answers (deps : Deps Stmt R) (s : Session R) (m : ClientMessage) : ℕ :=
  match m.body with
  | .query sql => if accepts deps s.router (sql.val++[0]) then 1 else 0
  | .execute portal _ =>
    ((boundSQL deps s portal.val).map fun sql => if accepts deps s.router sql then 1 else 0).getD 0
  | .sync => 1
  | _ => 0

lemma handleMessage_ready (deps : Deps Stmt R) (s : Session R) (m : ClientMessage) :
    ∃ s', handleMessage deps m.body.typ m.body.payload s = some s' ∧
      s'.ready = s.ready+answers deps s m := by
  obtain ⟨body,hfits,hshort⟩ := m
  cases body with
  | query sql =>
    refine ⟨_,rfl,?_⟩
    rw [handleQuery,if_neg (by simp [Body.payload])]
    exact ready_executeSQL deps _ s
  | parse name sql oids =>
    refine ⟨_,rfl,?_⟩
    rw [handleParse]
    split
    · exact ready_write_of_ne (by decide)
    · exact ready_writeError ..
    · exact ready_writeError ..
  | bind portal stmt formats params resultFormats =>
    exact handleBind_body portal stmt formats params resultFormats
  | execute portal maxRows =>
    refine ⟨_,rfl,?_⟩
    obtain ⟨rest,hparts⟩ := splitNull_append portal.property (beBytes 4 maxRows)
    simp only [handleExecute,Body.payload,hparts,answers,boundSQL]
    cases hportal : s.portals portal.val with
    | none => exact ready_writeError ..
    | some bound =>
      simp only [Option.bind_some]
      cases hplan : s.statements bound.planName with
      | none => exact ready_writeError ..
      | some plan => exact ready_executeSQL deps _ s
  | describe portal name => exact ⟨_,rfl,ready_write_of_ne (by decide)⟩
  | close portal name => exact ⟨_,rfl,ready_write_of_ne (by decide)⟩
  | sync => exact ⟨_,rfl,ready_write s _⟩

def due (m : ClientMessage) : ℕ := (if m.isQuery then 1 else 0)+if m.isSync then 1 else 0

lemma balanced_iff (m : ClientMessage) : Balanced deps s m ↔ answers deps s m = due m := by
  obtain ⟨body,hfits,hshort⟩ := m
  cases body with
  | query sql =>
    by_cases h : accepts deps s.router (sql.val++[0]) = true <;>
      simp [Balanced,answers,due,ClientMessage.isQuery,ClientMessage.isSync,h]
  | execute portal maxRows =>
    simp only [Balanced,answers,due,ClientMessage.isQuery,ClientMessage.isSync]
    cases boundSQL deps s portal.val with
    | none => simp
    | some sql => by_cases h : accepts deps s.router sql = true <;> simp [h]
  | sync => exact iff_of_true trivial rfl
  | _ => exact iff_of_true trivial rfl

/-- Each prefix of the messages has been answered as often as is due exactly if each message was. -/
lemma serve_ready_iff (msgs : List ClientMessage) (s : Session R) :
    (∀ l, l <+: msgs → ∃ s', serve deps l s = some s' ∧ s'.ready = s.ready+(l.map due).sum) ↔
      ∀ l m, l++[m] <+: msgs → ∀ s', serve deps l s = some s' → Balanced deps s' m := by
  induction msgs generalizing s with
  | nil =>
    refine iff_of_true (fun l hl => ?_) (fun l m hl => absurd hl (by simp))
    obtain rfl := List.prefix_nil.mp hl
    exact ⟨s,rfl,rfl⟩
  | cons m msgs ih =>
    obtain ⟨s₁,hs₁,hready⟩ := handleMessage_ready deps s m
    have hserve : ∀ l, serve deps (m::l) s = serve deps l s₁ := by
      intro l
      rw [serve,hs₁]
      rfl
    have hfirst : Balanced deps s m ↔ s₁.ready = s.ready+due m := by
      rw [balanced_iff]
      omega
    constructor
    · intro h
      obtain ⟨s₂,hs₂,hdue⟩ := h [m] (by simp)
      cases (hserve []).symm.trans hs₂
      have hm : Balanced deps s m := hfirst.mpr (by simpa using hdue)
      have hrest := (ih s₁).mp fun l hl => by
        obtain ⟨s',hs',hdue'⟩ := h (m::l) (List.cons_prefix_cons.mpr ⟨rfl,hl⟩)
        refine ⟨s',(hserve l).symm.trans hs',?_⟩
        rw [List.map_cons,List.sum_cons] at hdue'
        have := hfirst.mp hm
        omega
      intro l m' hl s' hs'
      cases l with
      | nil =>
        cases hs'
        obtain ⟨rfl,-⟩ := List.cons_prefix_cons.mp hl
        exact hm
      | cons x l =>
        obtain ⟨rfl,htail⟩ := List.cons_prefix_cons.mp hl
        exact hrest l m' htail s' ((hserve l).symm.trans hs')
    · intro h l hl
      have hm := hfirst.mp (h [] m (by simp) s rfl)
      cases l with
      | nil => exact ⟨s,rfl,rfl⟩
      | cons x l =>
        obtain ⟨rfl,htail⟩ := List.cons_prefix_cons.mp hl
        have hrest := (ih s₁).mpr fun l' m' hl' s' hs' =>
          h (x::l') m' (List.cons_prefix_cons.mpr ⟨rfl,hl'⟩) s' ((hserve l').trans hs')
        obtain ⟨s',hs',hdue⟩ := hrest l htail
        refine ⟨s',(hserve l).trans hs',?_⟩
        rw [List.map_cons,List.sum_cons]
        omega

lemma commandLoop_encode (msgs : List ClientMessage) {n : ℕ} (hn : msgs.length ≤ n) (s : Session R) :
    commandLoop deps n (msgs.flatMap ClientMessage.encode) s = serve deps msgs s := by
  induction msgs generalizing n s with
  | nil => cases n <;> rfl
  | cons m msgs ih =>
    obtain ⟨k,rfl⟩ : ∃ k, n = k+1 := ⟨n-1,by simp only [List.length_cons] at hn; omega⟩
    have hshort := m.short
    have hframe : (m::msgs).flatMap ClientMessage.encode =
        (m.body.typ::beBytes 4 (m.body.payload.length+4))++(m.body.payload++msgs.flatMap
          ClientMessage.encode) := by
      simp [ClientMessage.encode]
    rw [hframe]
    generalize hrest : msgs.flatMap ClientMessage.encode = rest
    have hheader : (m.body.typ::beBytes 4 (m.body.payload.length+4)).length = 5 := by simp
    have hlen : beNat ((((m.body.typ::beBytes 4
      (m.body.payload.length+4))++(m.body.payload++rest)).drop 1).take 4) =
        m.body.payload.length+4 := by
      rw [List.cons_append,List.drop_succ_cons,List.drop_zero,List.take_left' (by simp),
        beNat_beBytes (by omega)]
    rw [commandLoop,if_neg (by simp)]
    simp only [hlen]
    rw [if_neg (by omega),if_neg (by simp; omega),if_neg (by simp [m.body.typ_ne_terminate]),serve]
    have hpayload :
      (((m.body.typ::beBytes 4 (m.body.payload.length+4))++(m.body.payload++rest)).drop 5).take
        (m.body.payload.length+4-4) = m.body.payload := by
      rw [List.drop_left' hheader,List.take_left' (by omega)]
    have hdrop : ((m.body.typ::beBytes 4 (m.body.payload.length+4))++(m.body.payload++rest)).drop
      (m.body.payload.length+4+1) = rest := by
      rw [← List.append_assoc,List.drop_left' (by simp; omega)]
    rw [hpayload,hdrop]
    have hnext : commandLoop deps k rest = serve deps msgs := by
      funext s
      rw [← hrest]
      exact ih (by simpa using hn) s
    rw [hnext]
    rfl

end Step

lemma handleStartup_ok {tls : Bool} {n : ℕ} {input rest : Bytes} {sent : List Sent}
    (h : handleStartup tls (n+1) input = (.ok rest,sent)) :
    ∃ length, length = beNat (input.take 4) ∧ 4 ≤ input.length ∧ 4 ≤ length ∧ length < 2^31 ∧
      length ≤ input.length ∧
      ((∃ sent', handleStartup tls n (input.drop length) = (.ok rest,sent') ∧
        sent = .byte (if tls then 83 else msgSSLRequestN)::sent' ∧
        4 ≤ ((input.drop 4).take (length-4)).length ∧
          beNat (((input.drop 4).take (length-4)).take 4) = 80877103) ∨
      (rest = input.drop length ∧ sent = startupPackets.map .packet ∧
        4 ≤ ((input.drop 4).take (length-4)).length ∧
        beNat (((input.drop 4).take (length-4)).take 4) = 196608)) := by
  rw [handleStartup] at h
  by_cases h1 : input.length < 4
  · rw [if_pos h1] at h
    cases h
  rw [if_neg h1] at h
  dsimp only at h
  by_cases h2 : beNat (input.take 4) < 4 ∨ 2^31 ≤ beNat (input.take 4)
  · rw [if_pos h2] at h
    cases h
  by_cases h3 : input.length < beNat (input.take 4)
  · rw [if_neg h2,if_pos h3] at h
    cases h
  rw [if_neg h2,if_neg h3] at h
  refine ⟨_,rfl,by omega,by omega,by omega,by omega,?_⟩
  generalize (input.drop 4).take (beNat (input.take 4)-4) = payload at h ⊢
  by_cases h4 : 4 ≤ payload.length ∧ beNat (payload.take 4) = 80877103
  · rw [if_pos h4] at h
    generalize handleStartup tls n (input.drop (beNat (input.take 4))) = r at h ⊢
    obtain ⟨r,sent'⟩ := r
    cases h
    exact .inl ⟨sent',rfl,rfl,h4⟩
  by_cases h5 : payload.length < 4
  · rw [if_neg h4,if_pos h5] at h
    cases h
  by_cases h6 : beNat (payload.take 4) = 196608
  · rw [if_neg h4,if_neg h5,if_neg (not_not.mpr h6)] at h
    cases h
    exact .inr ⟨rfl,rfl,by omega,h6⟩
  · rw [if_neg h4,if_neg h5,if_pos h6] at h
    cases h

lemma handleStartup_append {tls : Bool} {n : ℕ} {input rest : Bytes} {sent : List Sent}
    (h : handleStartup tls n input = (.ok rest,sent))
    (more : Bytes) {k : ℕ} (hk : n ≤ k) : handleStartup tls k (input++more) = (.ok (rest++more),sent) := by
  induction n generalizing input sent k with
  | zero => cases h
  | succ n ih =>
    obtain ⟨k,rfl⟩ : ∃ j, k = j+1 := ⟨k-1,by omega⟩
    obtain ⟨length,hlength,h4,hmin,hmax,hle,hcase⟩ := handleStartup_ok h
    have htake : beNat ((input++more).take 4) = length := by rw [List.take_append_of_le_length h4,hlength]
    have hpayload : ((input++more).drop 4).take (length-4) = (input.drop 4).take (length-4) := by
      rw [List.drop_append_of_le_length h4,List.take_append_of_le_length (by simp; omega)]
    have hdrop : (input++more).drop length = input.drop length++more := List.drop_append_of_le_length hle
    rw [handleStartup]
    simp only [htake,hpayload,hdrop]
    rw [if_neg (by simp; omega),if_neg (by omega),if_neg (by simp; omega)]
    obtain ⟨sent',hrest,rfl,hssl⟩ | ⟨rfl,rfl,hver⟩ := hcase
    · rw [if_pos hssl,ih hrest (by omega)]
    · rw [if_neg (by omega),if_neg (by omega),if_neg (by omega)]

lemma ready_handleStartup {tls : Bool} {n : ℕ} {input rest : Bytes} {sent : List Sent}
    (h : handleStartup tls n input = (.ok rest,sent)) :
    countPackets msgReadyForQuery sent = 1 := by
  induction n generalizing input sent with
  | zero => cases h
  | succ n ih =>
    obtain ⟨length,-,-,-,-,-,⟨sent',hrest,rfl,-⟩ | ⟨-,rfl,-⟩⟩ := handleStartup_ok h
    · rw [countPackets_byte]
      exact ih hrest
    · decide

lemma run_encode {Stmt R : Type} {deps : Deps Stmt R} {tls : Bool} {router : R} {input : Bytes}
    {sent : List Sent}
    (hstart : handleStartup tls (input.length+1) input = (.ok [],sent)) (l : List ClientMessage) :
    run deps tls router (input++l.flatMap ClientMessage.encode) =
      (serve deps l (newSession router sent)).map (·.sent) := by
  have hlength : l.length ≤ (l.flatMap ClientMessage.encode).length := by
    induction l with
    | nil => exact Nat.zero_le 0
    | cons m l ih =>
      simp only [List.flatMap_cons,List.length_append,List.length_cons,ClientMessage.encode]
      omega
  rw [run,handleStartup_append hstart _ (show input.length+1 ≤
    (input++l.flatMap ClientMessage.encode).length+1 by simp)]
  simp only [List.nil_append]
  rw [commandLoop_encode l (by omega)]

lemma due_sum (l : List ClientMessage) : (l.map due).sum = l.countP (·.isQuery)+l.countP (·.isSync) := by
  induction l with
  | nil => rfl
  | cons m l ih =>
    rw [List.map_cons,List.sum_cons,ih,List.countP_cons,List.countP_cons,due]
    omega

/-- The session is ready once for the startup, every Query and every Sync, all along a sequence of
messages, exactly if each Query is accepted and no Execute is. -/
theorem ready_for_query_iff {Stmt R : Type} (deps : Deps Stmt R) (tls : Bool) (router : R)
    (input : Bytes) (sent : List Sent)
    (hstart : handleStartup tls (input.length+1) input = (.ok [],sent)) (msgs : List ClientMessage) :
    (∀ l, l <+: msgs → ∃ out, run deps tls router (input++l.flatMap ClientMessage.encode) = some out ∧
      countPackets msgReadyForQuery out = 1+l.countP (·.isQuery)+l.countP (·.isSync)) ↔
    ∀ l m, l++[m] <+: msgs → ∀ s, serve deps l (newSession router sent) = some s → Balanced deps s m := by
  have hready : (newSession router sent).ready = 1 := ready_handleStartup hstart
  rw [← serve_ready_iff,hready]
  refine forall_congr' fun l => imp_congr_right fun _ => ?_
  rw [run_encode hstart,due_sum]
  constructor
  · rintro ⟨out,hout,hcount⟩
    obtain ⟨s,hs,rfl⟩ := Option.map_eq_some_iff.mp hout
    exact ⟨s,hs,by rw [Session.ready,hcount,Nat.add_assoc]⟩
  · rintro ⟨s,hs,hcount⟩
    exact ⟨s.sent,by rw [hs]; rfl,by rw [Nat.add_assoc]; exact hcount⟩

/-- Statements begin with SELECT, have no NUL in them and one row. -/
def selecting : Deps Bytes Unit where
  lib := plainServerLib
  parse sql := if ascii "SELECT" <+: sql ∧ 0 ∉ sql then .ok sql else .error (ascii "syntax error")
  route _ _ := (.ok ⟨some (oneRow none),0,[]⟩,())

def startupMessage : Bytes := beBytes 4 8++beBytes 4 196608

def unnamed : CString := ⟨[],by decide⟩

def queryMessage (sql : CString) (h : sql.val.length < 100) : ClientMessage :=
  ⟨.query sql,trivial,by simp only [Body.payload,List.length_append,List.length_singleton]; omega⟩

def syncMessage : ClientMessage := ⟨.sync,trivial,by decide⟩

/-- The text of a Query keeps its NUL, so that of statements only the probes of the catalog go through. -/
theorem ready_after_query_and_sync : ∃ out, run selecting false () (startupMessage++
    [queryMessage ⟨ascii "select version()",by decide⟩ (by decide),syncMessage].flatMap
      ClientMessage.encode) = some out ∧ countPackets msgReadyForQuery out = 3 := by
  have hstart : handleStartup false (startupMessage.length+1) startupMessage =
      (.ok [],startupPackets.map .packet) := by decide +kernel
  refine (ready_for_query_iff selecting false () startupMessage _ hstart
    [queryMessage ⟨ascii "select version()",by decide⟩ (by decide),syncMessage]).mpr
      (fun l m hl s hs => ?_) _ List.prefix_rfl
  obtain ⟨t,ht⟩ := hl
  match l with
  | [] =>
    cases hs
    cases ht
    exact (show accepts selecting () (ascii "select version()"++[0]) = true by decide +kernel)
  | [_] =>
    cases ht
    trivial
  | _::_::_ => simp at ht

/-- A refused Query leaves the client waiting, and an Execute says that the session is ready before
its Sync does. -/
theorem ready_count_wrong :
    ((run selecting false () (startupMessage++(queryMessage ⟨ascii "SELEC 1",
      by decide⟩ (by decide)).encode)).map
      (countPackets msgReadyForQuery) = some 1) ∧
    (run selecting false () (startupMessage++[(⟨.parse unnamed ⟨ascii "SELECT 1",by decide⟩ [],
      by simp [Body.Fits],by decide⟩ : ClientMessage),
      ⟨.bind unnamed unnamed [] [] [],by simp [Body.Fits],by decide⟩,
        ⟨.execute unnamed 0,by simp [Body.Fits],by decide⟩,syncMessage].flatMap
        ClientMessage.encode)).map (countPackets msgReadyForQuery) = some 3 := by
  decide +kernel

end Plomvix.Server
