import Plomvix.Lib.Postings
import Plomvix.Logs.Appends
import Plomvix.Logs.Engine

/-! What a query of the logs engine returns, against what its WHERE clause says. The walk over the
clause compares printed column names. The parser takes `time` for a keyword and prints it in
back-quotes, so no bound on the time is ever found, and what is left is the text of the last LIKE. -/
namespace Plomvix.Logs
open Lib Pager PageLog Prog Engine

def severityToString (sev : UInt8) : Bytes :=
  if sev = 1 then ascii "DEBUG" else if sev = 2 then ascii "INFO" else if sev = 3 then ascii "WARN"
  else if sev = 4 then ascii "ERROR" else if sev = 5 then ascii "FATAL" else ascii "INFO"

inductive Comparison
  | ge | le | gt | lt | eq | ne
  deriving DecidableEq

def Comparison.operator : Comparison → Operator
  | ge => .greaterEqual
  | le => .lessEqual
  | gt => .greaterThan
  | lt => .lessThan
  | eq => .equal
  | ne => .other

/-- The comparison of two times, `t` on the left. -/
def Comparison.holds (t v : Int64) : Comparison → Bool
  | ge => v ≤ t
  | le => t ≤ v
  | gt => v < t
  | lt => t < v
  | eq => t = v
  | ne => t≠v

inductive Column
  | time | severity | attributes | body
  deriving DecidableEq

def Column.name : Column → Bytes
  | time => ascii "time"
  | severity => ascii "severity"
  | attributes => ascii "attributes"
  | body => ascii "body"

/-- A reference to a column as it is printed: the name, perhaps in other letters, qualified or in
quotes. `time` is a keyword and is never printed as the name alone. -/
structure Ref (lib : TextLib) (col : Column) where
  text : Bytes
  own : ∀ other : Column, lib.toLower text = other.name → other = col ∧ col≠.time

/-- It is printed as the name alone. -/
def Ref.Plain {lib : TextLib} {col : Column} (ref : Ref lib col) : Prop :=
  lib.toLower ref.text = col.name

instance {lib : TextLib} {col : Column} (ref : Ref lib col) : Decidable ref.Plain := by
  unfold Ref.Plain
  infer_instance

/-- A number as it is printed, and its value. It is not printed as a column is. -/
structure Constant (lib : TextLib) where
  operand : Operand
  value : Int64
  parsed : parseInt (operand.print lib) = some value
  own : ∀ col : Column, lib.toLower (operand.print lib)≠col.name

/-- A string literal. It is not printed as a column is. -/
structure Quoted (lib : TextLib) where
  val : Bytes
  own : ∀ col : Column, lib.toLower ((Operand.string val).print lib)≠col.name

/-- A condition on a time. The constant of a comparison may stand on the left. -/
inductive TimeCond (lib : TextLib)
  | compare (op : Comparison) (c : Constant lib)
  | compared (c : Constant lib) (op : Comparison)
  | between (isBetween : Bool) (lo hi : Constant lib)

namespace TimeCond
variable {lib : TextLib}

def expr (column : Bytes) : TimeCond lib → Expr
  | compare op c => .comparison column op.operator c.operand
  | compared c op => .comparison (c.operand.print lib) op.operator (.column column)
  | between isBetween lo hi => .between column isBetween lo.operand hi.operand

/-- Whether the condition is true of the value. -/
def holds (t : Int64) : TimeCond lib → Bool
  | compare op c => op.holds t c.value
  | compared c op => op.holds c.value t
  | between isBetween lo hi => decide (lo.value ≤ t ∧ t ≤ hi.value) == isBetween

end TimeCond

/-- A comparison of a column of texts with a literal, on either side. -/
inductive TextCond (lib : TextLib)
  | compare (op : Operator) (val : Quoted lib)
  | compared (val : Quoted lib) (op : Operator)

/-- What LIKE and the comparisons of texts mean. -/
structure TextMeaning where
  like : Bytes → Bytes → Bool
  compare : Operator → Bytes → Bytes → Bool

namespace TextCond
variable {lib : TextLib}

def operator : TextCond lib → Operator
  | compare op _ | compared _ op => op

def expr (column : Bytes) : TextCond lib → Expr
  | compare op val => .comparison column op (.string val.val)
  | compared val op => .comparison ((Operand.string val.val).print lib) op (.column column)

/-- Whether the condition is true of the value. -/
def holds (m : TextMeaning) (text : Bytes) : TextCond lib → Bool
  | compare op val => m.compare op text val.val
  | compared val op => m.compare op val.val text

end TextCond

/-- The conditions of a WHERE clause. -/
inductive Pred (lib : TextLib)
  | and (l r : Pred lib)
  | or (l r : Pred lib)
  | not (p : Pred lib)
  | time (ref : Ref lib .time) (c : TimeCond lib)
  | like (ref : Ref lib .body) (pattern : Bytes)
  | severity (ref : Ref lib .severity) (c : TextCond lib)
  | attributes (ref : Ref lib .attributes) (c : TextCond lib)

namespace Pred
variable {lib : TextLib} (m : TextMeaning)

/-- The clause as it is walked over. -/
def expr : Pred lib → Expr
  | and l r => .and l.expr r.expr
  | or l r => .or l.expr r.expr
  | not p => .not p.expr
  | time ref c => c.expr ref.text
  | like ref pattern => .comparison ref.text .like (.string pattern)
  | severity ref c => c.expr ref.text
  | attributes ref c => c.expr ref.text

/-- What the clause says of a record. -/
def holds (r : LogRecord) : Pred lib → Bool
  | and p q => p.holds r && q.holds r
  | or p q => p.holds r || q.holds r
  | not p => !p.holds r
  | time _ c => c.holds r.timestamp
  | like _ pattern => m.like pattern r.body
  | severity _ c => c.holds m (severityToString r.severity)
  | attributes _ c => c.holds m r.attributes

/-- The conditions that AND joins. -/
def conjuncts : Pred lib → List (Pred lib)
  | and p q => p.conjuncts++q.conjuncts
  | p => [p]

/-- A part of a clause that makes it unsupported: OR, NOT, `<>` and NOT LIKE of anything but the
body, and BETWEEN on the time. -/
def Rejected : Pred lib → Prop
  | or _ _ | not _ | time _ (.compare .ne _) | time _ (.compared _ .ne) |
    time _ (.between true _ _) => True
  | severity _ c | attributes _ c => c.operator = .notLike ∨ c.operator = .other
  | _ => False

instance : (p : Pred lib) → Decidable p.Rejected := fun p => by
  unfold Rejected
  split <;> infer_instance

/-- The text of a pattern, if its column is printed as `body` alone. -/
def sought : Pred lib → Option Bytes
  | like ref pattern => if ref.Plain then some (likeFilter lib (.string pattern)) else none
  | _ => none

/-- The text that is looked for in the end: that of the last pattern, without a `%` at its ends. -/
def text (p : Pred lib) : Bytes := (p.conjuncts.filterMap sought).getLast?.getD []

/-- Every condition that is not on the body is true of every record that can be stored with the
text, and the patterns together say that the body contains the text. -/
structure Vacuous (p : Pred lib) : Prop where
  others : ∀ c ∈ p.conjuncts, (∀ ref pattern, c≠like ref pattern) →
    ∀ r : LogRecord, r.attributes.length+p.text.length ≤ 4061 → c.holds m r = true
  patterns : ∀ body : Bytes, body.length ≤ 4061 →
    ((∀ ref pattern, like ref pattern ∈ p.conjuncts → m.like pattern body = true) ↔ p.text <:+: body)

end Pred

/-- The parts of a condition that must all hold. -/
def Expr.conjuncts : Expr → List Expr
  | .and l r => l.conjuncts++r.conjuncts
  | e => [e]

section Walk
variable {lib : TextLib} {m : TextMeaning} {c p : Pred lib} {r : LogRecord}

lemma walkLogsWhere_conjuncts (e : Expr) (w : Where) :
    walkLogsWhere lib e w = e.conjuncts.foldlM (fun w e => walkLogsWhere lib e w) w := by
  induction e generalizing w with
  | and l r ihl ihr =>
    rw [walkLogsWhere,ihl,Expr.conjuncts,List.foldlM_append]
    exact congrArg _ (funext ihr)
  | _ => simp [Expr.conjuncts]

lemma Pred.conjuncts_ne_and (h : c ∈ p.conjuncts) (l r : Pred lib) : c≠.and l r := by
  induction p with
  | and p q ihp ihq =>
    obtain h | h := List.mem_append.mp h
    · exact ihp h
    · exact ihq h
  | _ =>
    rw [List.mem_singleton.mp h]
    nofun

lemma TimeCond.conjuncts_expr (column : Bytes) (c : TimeCond lib) :
    (c.expr column).conjuncts = [c.expr column] := by cases c <;> rfl

lemma TextCond.conjuncts_expr (column : Bytes) (c : TextCond lib) :
    (c.expr column).conjuncts = [c.expr column] := by cases c <;> rfl

lemma Pred.conjuncts_expr (p : Pred lib) : p.expr.conjuncts = p.conjuncts.map expr := by
  induction p with
  | and p q ihp ihq =>
    change p.expr.conjuncts++q.expr.conjuncts = _
    rw [ihp,ihq,Pred.conjuncts,List.map_append]
  | time ref c => exact c.conjuncts_expr ref.text
  | severity ref c => exact c.conjuncts_expr ref.text
  | attributes ref c => exact c.conjuncts_expr ref.text
  | _ => rfl

lemma Pred.holds_iff_conjuncts (m : TextMeaning) (r : LogRecord) (p : Pred lib) :
    p.holds m r = true ↔ ∀ c ∈ p.conjuncts, c.holds m r = true := by
  induction p with
  | and p q ihp ihq =>
    change (p.holds m r && q.holds m r) = true ↔ ∀ c ∈ p.conjuncts++q.conjuncts, _
    rw [Bool.and_eq_true,ihp,ihq,List.forall_mem_append]
  | _ => simp [Pred.conjuncts]

lemma Ref.ne_name {col : Column} (ref : Ref lib col) (other : Column) (h : other = col → col = .time) :
    lib.toLower ref.text≠other.name :=
  fun heq => (ref.own other heq).2 (h (ref.own other heq).1)

/-- A comparison whose left side is no column that is looked at. -/
lemma walkComparison_other {left : Bytes} {right : Operand} {w : Where} {op : Operator}
    (htime : lib.toLower left≠ascii "time") (hbody : lib.toLower left≠ascii "body") :
    walkComparison lib left right w op = if op = .notLike ∨ op = .other then none else some w := by
  cases op <;> simp [walkComparison,timeBound,htime,hbody]

lemma walk_time (ref : Ref lib .time) (c : TimeCond lib) (w : Where) :
    walkLogsWhere lib (c.expr ref.text) w = if (Pred.time ref c).Rejected then none else some w := by
  have htime : lib.toLower ref.text≠ascii "time" := ref.ne_name .time id
  have hbody : lib.toLower ref.text≠ascii "body" := ref.ne_name .body fun _ => rfl
  cases c with
  | compare op c =>
    refine (walkComparison_other htime hbody).trans ?_
    cases op <;> simp [Comparison.operator,Pred.Rejected]
  | compared c op =>
    refine (walkComparison_other (c.own .time) (c.own .body)).trans ?_
    cases op <;> simp [Comparison.operator,Pred.Rejected]
  | between isBetween lo hi =>
    cases isBetween <;> simp [TimeCond.expr,walkLogsWhere,htime,Pred.Rejected]

lemma walk_text {column : Bytes} (htime : lib.toLower column≠ascii "time")
    (hbody : lib.toLower column≠ascii "body") (c : TextCond lib) (w : Where) :
    walkLogsWhere lib (c.expr column) w =
      if c.operator = .notLike ∨ c.operator = .other then none else some w := by
  cases c with
  | compare op val => exact walkComparison_other htime hbody
  | compared val op => exact walkComparison_other (val.own .time) (val.own .body)

/-- A conjunct is refused, or sets the text at most. -/
lemma walk_conjunct (hand : ∀ l r, c≠.and l r) (w : Where) :
    walkLogsWhere lib c.expr w =
      if c.Rejected then none else some { w with bodyFilter := c.sought.getD w.bodyFilter } := by
  cases c with
  | and l r => exact absurd rfl (hand l r)
  | or l r => simp [Pred.expr,walkLogsWhere,Pred.Rejected]
  | not p => simp [Pred.expr,walkLogsWhere,Pred.Rejected]
  | time ref c => exact walk_time ref c w
  | like ref pattern =>
    by_cases hplain : ref.Plain
    · have hleft : lib.toLower ref.text = ascii "body" := hplain
      simp [Pred.expr,walkLogsWhere,walkComparison,hleft,Pred.Rejected,Pred.sought,hplain]
    · have hleft : lib.toLower ref.text≠ascii "body" := hplain
      simp [Pred.expr,walkLogsWhere,walkComparison,hleft,Pred.Rejected,Pred.sought,hplain]
  | severity ref c =>
    rw [Pred.expr,walk_text (ref.ne_name .time nofun) (ref.ne_name .body nofun)]
    simp only [Pred.Rejected,Pred.sought,Option.getD_none]
    rfl
  | attributes ref c =>
    rw [Pred.expr,walk_text (ref.ne_name .time nofun) (ref.ne_name .body nofun)]
    simp only [Pred.Rejected,Pred.sought,Option.getD_none]
    rfl

lemma walk_conjuncts {cs : List (Pred lib)} (hand : ∀ c ∈ cs, ∀ l r, c≠.and l r) (w : Where) :
    (cs.map Pred.expr).foldlM (fun w e => walkLogsWhere lib e w) w =
      if ∃ c ∈ cs, c.Rejected then none
      else some { w with bodyFilter := (cs.filterMap Pred.sought).getLast?.getD w.bodyFilter } := by
  induction cs generalizing w with
  | nil => simp
  | cons c cs ih =>
    rw [List.map_cons,List.foldlM_cons,walk_conjunct (hand c (List.mem_cons_self ..))]
    by_cases hc : c.Rejected
    · rw [if_pos hc,if_pos ⟨c,List.mem_cons_self ..,hc⟩]
      rfl
    · rw [if_neg hc,Option.bind_eq_bind,Option.bind_some,
        ih fun d hd => hand d (List.mem_cons_of_mem _ hd)]
      simp only [List.exists_mem_cons_iff,hc,false_or,List.filterMap_cons]
      cases c.sought with
      | none => rfl
      | some text => rw [Option.getD_some,List.getLast?_cons,Option.getD_some]

/-- There are no bounds on the time. -/
lemma parse_conjuncts (p : Pred lib) : parseLogsWhere lib (some p.expr) =
    if ∃ c ∈ p.conjuncts, c.Rejected then none else some ⟨0,0,p.text⟩ := by
  rw [parseLogsWhere,walkLogsWhere_conjuncts,p.conjuncts_expr]
  exact walk_conjuncts (fun c hc => Pred.conjuncts_ne_and hc) _

/-- A condition that is neither refused nor on the body says the same of records with the same
attributes, time and severity. -/
lemma Pred.holds_body (hand : ∀ l r, c≠.and l r) (hnot : ¬c.Rejected)
    (hlike : ∀ ref pattern, c≠.like ref pattern) (body : Bytes) :
    c.holds m { r with body := body } = c.holds m r := by
  cases c with
  | and l r => exact absurd rfl (hand l r)
  | or l r => exact absurd trivial hnot
  | not p => exact absurd trivial hnot
  | like ref pattern => exact absurd rfl (hlike ref pattern)
  | _ => rfl

lemma LogRecord.serializedSize_le_iff (r : LogRecord) :
    r.serializedSize ≤ 4076 ↔ r.attributes.length+r.body.length ≤ 4061 := by
  rw [LogRecord.serializedSize]
  omega

/-- The condition on the clause is what makes it come to its text on every record that can be
stored. -/
lemma Pred.vacuous_iff (hnot : ∀ c ∈ p.conjuncts, ¬c.Rejected) (hfits : p.text.length ≤ 4061) :
    p.Vacuous m ↔ ∀ r : LogRecord, r.serializedSize ≤ 4076 →
      (p.holds m r = true ↔ p.text <:+: r.body) := by
  have hand : ∀ c ∈ p.conjuncts, ∀ l r, c≠.and l r := fun c hc => conjuncts_ne_and hc
  constructor
  · intro h r hsize
    rw [r.serializedSize_le_iff] at hsize
    rw [holds_iff_conjuncts]
    constructor
    · exact fun hr => (h.patterns r.body (by omega)).mp fun ref pattern hmem => hr _ hmem
    · intro htext c hc
      by_cases hlike : ∃ ref pattern, c = .like ref pattern
      · obtain ⟨ref,pattern,rfl⟩ := hlike
        exact (h.patterns r.body (by omega)).mpr htext ref pattern hc
      · have := htext.length_le
        exact h.others c hc (fun ref pattern heq => hlike ⟨ref,pattern,heq⟩) r (by omega)
  · intro h
    have hothers : ∀ c ∈ p.conjuncts, (∀ ref pattern, c≠.like ref pattern) →
        ∀ r : LogRecord, r.attributes.length+p.text.length ≤ 4061 → c.holds m r = true := by
      intro c hc hlike r hr
      rw [← holds_body (hand c hc) (hnot c hc) hlike p.text]
      have hp := (h { r with body := p.text } ((LogRecord.serializedSize_le_iff _).mpr hr)).mpr
        List.infix_rfl
      exact (p.holds_iff_conjuncts m _).mp hp c hc
    refine ⟨hothers,fun body hbody => ?_⟩
    have hrecord := h ⟨0,0,[],body⟩ ((LogRecord.serializedSize_le_iff _).mpr (by simpa using hbody))
    rw [← hrecord,holds_iff_conjuncts]
    constructor
    · intro hall c hc
      by_cases hlike : ∃ ref pattern, c = .like ref pattern
      · obtain ⟨ref,pattern,rfl⟩ := hlike
        exact hall ref pattern hc
      · exact hothers c hc (fun ref pattern heq => hlike ⟨ref,pattern,heq⟩) _ (by simpa using hfits)
    · exact fun hall ref pattern hmem => hall _ hmem

end Walk

/-- The stores without an index that appends, passes of the retention worker and reopening lead to. -/
inductive Unindexed (lib : TextLib) : Store Enterprise → Prop
  | opened {s : Store Enterprise}
      (h : openStore (kind lib) (newStoreWithIndex .empty [] ⟨none,[]⟩) = (.ok (),s)) : Unindexed lib s
  | append {s : Store Enterprise} (h : Unindexed lib s) (r : LogRecord) :
      Unindexed lib (append (kind lib) r s).2
  | sweep {s : Store Enterprise} (h : Unindexed lib s) (cutoff : Int64) :
      Unindexed lib (retentionSweep cutoff s).2
  | reopen {s s' : Store Enterprise} (h : Unindexed lib s)
      (hopen : reopen (kind lib) ⟨none,[]⟩ s = (.ok (),s')) : Unindexed lib s'

/-- The records on the pages. -/
def stored (s : Store Enterprise) : List LogRecord := (located codec s.pages).map Prod.snd

/-- The query is refused, or returns the stored records that satisfy the clause. -/
def Exact (lib : TextLib) (m : TextMeaning) (order : List ℕ → List ℕ) (p : Pred lib)
    (s : Store Enterprise) : Prop :=
  (executeSelect lib order (some p.expr) s).1 = .error .unsupportedQuery ∨
    ∃ recs, (executeSelect lib order (some p.expr) s).1 = .ok recs ∧
      recs.Perm ((stored s).filter (p.holds m))

section Store
variable {lib : TextLib} {s : Store Enterprise} {r : LogRecord}

/-- Such a store never gets one. -/
def Plainly (_ : List (Place × LogRecord)) (e : Enterprise) : Prop := e = ⟨none,[]⟩

lemma plainly_new (ps : List (Place × LogRecord)) : Plainly ps ⟨none,[]⟩ := rfl

lemma unindexed_keeps (lib : TextLib) : Keeps (kind lib) Plainly := by
  refine ⟨fun ps x e h => h,fun ps place r e e' h hinsert => ?_⟩
  cases h
  exact (Option.some.inj hinsert).symm

lemma retentionSweep_run (h : s.index = ⟨none,[]⟩) (cutoff : Int64) :
    retentionSweep cutoff s = (.ok (),s) := by
  rw [retentionSweep,bind_ok (get_run s),h]
  simp only [List.filter_nil,List.flatMap_nil,freePages]
  rw [bind_ok (show (pure () : Cmd Enterprise Unit) s = (.ok (),s) from rfl),modify_run,h]
  simp only [Option.map_none,List.filter_nil]
  rw [← h]

theorem Unindexed.indexed (h : Unindexed lib s) : Indexed (kind lib) Plainly s := by
  induction h with
  | opened hopen => exact opened_indexed plainly_new hopen
  | append h r ih => exact (append_indexed (unindexed_keeps lib) ih r).state
  | sweep h cutoff ih =>
    obtain ⟨before,l,pending,ih⟩ := ih
    rw [retentionSweep_run ih.index]
    exact ⟨before,l,pending,ih⟩
  | reopen h hopen ih => exact reopen_indexed (unindexed_keeps lib) ih plainly_new hopen

lemma stored_of_holds {contents : List (List LogRecord)} (h : Holds (kind lib) s.pages contents) :
    stored s = contents.flatten := by
  rw [stored,show located codec s.pages = places codec firstDataPageID contents from h.located_eq,
    map_snd_places]

lemma size_of_stored (hs : Unindexed lib s) (hr : r ∈ stored s) : r.serializedSize ≤ 4076 := by
  obtain ⟨contents,hholds,-⟩ := hs.indexed.has
  rw [stored_of_holds hholds,List.mem_flatten] at hr
  obtain ⟨l,hl,hr⟩ := hr
  obtain ⟨i,hi⟩ := List.mem_iff_getElem?.mp hl
  have hroom := (hholds.stored i l hi).fits.room
  obtain ⟨before,after,rfl⟩ := List.append_of_mem hr
  simp only [RecordPage.used,RecordPage.encodeAll,kind,codec,List.flatMap_append,List.flatMap_cons,
    List.length_append,r.encode_length] at hroom
  have hbody : dataPageBodySize = 4084 := rfl
  have hheader : RecordPage.headerSize = 8 := rfl
  omega

/-- A record that fits on a page can be stored. -/
lemma exists_stored (lib : TextLib) (hsize : r.serializedSize ≤ 4076) :
    ∃ s, Unindexed lib s ∧ r ∈ stored s := by
  obtain ⟨s₀,hopen,h₀⟩ := @opened_loaded _ _ (kind lib) (fun _ _ => True) ⟨none,[]⟩
    fun _ => trivial
  have hs₀ : Keeping lib [] s₀ := ⟨[],[],h₀,rfl⟩
  refine ⟨_,(Unindexed.opened hopen).append r,?_⟩
  rcases hrun : append (kind lib) r s₀ with ⟨e | _,s⟩
  · have hfull := ((hs₀.appended r).error hrun).2 hsize
    rw [h₀.holds.count] at hfull
    exact absurd hfull (by decide)
  · obtain ⟨before,l,hs,hm⟩ := (hs₀.appended r).ok hrun
    rw [stored_of_holds hs.holds,hm]
    exact List.mem_singleton_self r

lemma scanRange_run {l : List LogRecord} (h : Has (kind lib) s l) (hquiet : s.script = [])
    (hopen : s.opened = true) (text : Bytes) :
    scanRange lib 0 0 text s = (.ok (l.filter fun r => contains r.body text),s) := by
  have hkeep : ∀ r : LogRecord, (inRange 0 0 r && (decide (text = []) || contains r.body text)) =
      contains r.body text := by
    intro r
    by_cases htext : text = []
    · simp [htext,contains,inRange]
    · simp [htext,inRange]
  rw [scanRange,h.scan_run _ hquiet hopen,scanned,select_of_ne_none (by simp)]
  simp only [hkeep,Option.some.injEq,Bool.decide_eq_true]

lemma select_unindexed (hs : Unindexed lib s) (order : List ℕ → List ℕ) (p : Pred lib) :
    (executeSelect lib order (some p.expr) s).1 =
      if ∃ c ∈ p.conjuncts, c.Rejected then .error .unsupportedQuery
      else .ok ((stored s).filter fun r => contains r.body p.text) := by
  obtain ⟨contents,hholds,hopen,hquiet,hhas,hindex⟩ := hs.indexed.has
  rw [executeSelect,parse_conjuncts]
  split_ifs with hrejected
  · rfl
  · have hnone : s.index.tokenIndex = none := congrArg Enterprise.tokenIndex hindex
    simp only [hnone,Option.isSome_none,Bool.false_eq_true,false_and,if_false]
    rw [scanRange_run hhas hquiet hopen,stored_of_holds hholds]
    rfl

/-- Of a query that is not refused, the records with the text are returned. -/
lemma exact_iff_stored (m : TextMeaning) (order : List ℕ → List ℕ) (hs : Unindexed lib s)
    (p : Pred lib) : Exact lib m order p s ↔ (∃ c ∈ p.conjuncts, c.Rejected) ∨
      ∀ r ∈ stored s, (p.holds m r = true ↔ p.text <:+: r.body) := by
  have hselect := select_unindexed hs order p
  by_cases hrejected : ∃ c ∈ p.conjuncts, c.Rejected
  · rw [if_pos hrejected] at hselect
    exact iff_of_true (.inl hselect) (.inl hrejected)
  rw [if_neg hrejected] at hselect
  have heach := Postings.perm_filter_iff id (fun r => contains r.body p.text) (p.holds m) (stored s)
  simp only [List.map_id,id_eq] at heach
  simp only [Exact,hselect,hrejected,false_or,reduceCtorEq,Except.ok.injEq,exists_eq_left',heach]
  refine forall₂_congr fun r _ => ?_
  rw [Bool.eq_iff_iff,contains,decide_eq_true_iff]
  exact iff_comm

end Store

/-- LIKE byte by byte: `%` is any text, `_` any byte, and a backslash takes the next byte for
itself. -/
def sqlLike : Bytes → Bytes → Bool
  | [],s => s = []
  | 37::p,s => s.tails.any (sqlLike p)
  | 95::p,s => s≠[] && sqlLike p s.tail
  | 92::c::p,s => s.head? = some c && sqlLike p s.tail
  | c::p,s => s.head? = some c && sqlLike p s.tail

/-- SQL's LIKE, and the order of the bytes. -/
def binaryText : TextMeaning where
  like := sqlLike
  compare op text val :=
    match op with
    | .greaterEqual => val ≤ text
    | .lessEqual => text ≤ val
    | .greaterThan => val < text
    | .lessThan => text < val
    | .equal => text = val
    | .like => sqlLike val text
    | .notLike => !sqlLike val text
    | .other => text≠val

section Like

lemma sqlLike_percent (p s : Bytes) : sqlLike (37::p) s = true ↔ ∃ t, t <:+ s ∧ sqlLike p t = true := by
  simp [sqlLike,List.any_eq_true]

lemma sqlLike_literal {text : Bytes} (h : ∀ c ∈ text, c≠37 ∧ c≠95 ∧ c≠92) (s : Bytes) :
    sqlLike (text++[37]) s = true ↔ text <+: s := by
  induction text generalizing s with
  | nil => exact iff_of_true ((sqlLike_percent [] s).mpr ⟨[],List.nil_suffix,rfl⟩) List.nil_prefix
  | cons c text ih =>
    obtain ⟨⟨hpercent,hunderscore,hbackslash⟩,htext⟩ := List.forall_mem_cons.mp h
    have hstep : sqlLike (c::(text++[37])) s =
      (decide (s.head? = some c) && sqlLike (text++[37]) s.tail) := by
      rw [sqlLike]
      all_goals simp_all
    rw [List.cons_append,hstep,Bool.and_eq_true,ih htext,decide_eq_true_iff]
    cases s with
    | nil => simp
    | cons d s => simp [List.cons_prefix_cons,eq_comm]

/-- A text between two `%` means that it is contained. -/
lemma sqlLike_contains {text : Bytes} (h : ∀ c ∈ text, c≠37 ∧ c≠95 ∧ c≠92) (s : Bytes) :
    sqlLike (37::(text++[37])) s = true ↔ text <:+: s := by
  simp only [sqlLike_percent,sqlLike_literal h,List.infix_iff_prefix_suffix]
  exact exists_congr fun t => and_comm

end Like

/-- The text functions on ASCII, for literals without characters that are escaped. -/
def asciiText : TextLib where
  toLower b := b.map fun c => if 65 ≤ c ∧ c ≤ 90 then c+32 else c
  runes b := b.map UInt8.toNat
  isLetter r := 65 ≤ r ∧ r ≤ 90 ∨ 97 ≤ r ∧ r ≤ 122
  isDigit r := 48 ≤ r ∧ r ≤ 57
  lowerRune r := if 65 ≤ r ∧ r ≤ 90 then r+32 else r
  encodeRune r := [UInt8.ofNat r]
  escape b := b

section Ascii

def timeRef : Ref asciiText .time := ⟨ascii "\x60time\x60",fun other => by cases other <;> decide⟩
def bodyRef : Ref asciiText .body := ⟨ascii "body",fun other => by cases other <;> decide⟩
def severityRef : Ref asciiText .severity := ⟨ascii "severity",fun other => by cases other <;> decide⟩

def three : Constant asciiText := ⟨.literal (ascii "3"),3,by decide,fun col => by cases col <;> decide⟩
def seven : Constant asciiText := ⟨.literal (ascii "7"),7,by decide,fun col => by cases col <;> decide⟩
def error : Quoted asciiText := ⟨ascii "ERROR",fun col => by cases col <;> decide⟩

/-- One record of the time 5. -/
def diskFull : Store Enterprise :=
  (append (kind asciiText) ⟨5,2,[],ascii "disk full"⟩
    (openStore (kind asciiText) (newStoreWithIndex .empty [] ⟨none,[]⟩)).2).2

lemma unindexed_diskFull : Unindexed asciiText diskFull := by
  obtain ⟨s,hopen,-⟩ := opened_loaded (k := kind asciiText) plainly_new
  rw [diskFull,hopen]
  exact (Unindexed.opened hopen).append _

lemma not_exact {p : Pred asciiText}
    (h : ((executeSelect asciiText List.dedup (some p.expr) diskFull).1.map List.length).toOption ≠
      some ((stored diskFull).filter (p.holds binaryText)).length)
    (hok : (executeSelect asciiText List.dedup (some p.expr) diskFull).1≠.error .unsupportedQuery) :
    ¬ Exact asciiText binaryText List.dedup p diskFull := by
  rintro (herr | ⟨recs,hrecs,hperm⟩)
  · exact hok herr
  · rw [hrecs,← hperm.length_eq] at h
    exact h rfl

end Ascii
end Plomvix.Logs
