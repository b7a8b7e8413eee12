import Plomvix.Server.Session
import Plomvix.Engine.Decimal
import Plomvix.Engine.Sql

/-! What a statement with a row stream is answered with, against what its stream returned. -/
namespace Plomvix.Server
open Lib Engine Planner

def tagCount (tag : Bytes) : Option ℕ :=
  let word := (tag.reverse.takeWhile (·≠32)).reverse
  if word = [] ∨ word.any (!isDigit ·) then none else some (digitsVal word)

/-- One DataRow for each row; then one CommandComplete with their number, or an ErrorResponse. -/
structure Faithful (lib : ServerLib) (stream : RowStream) (packets : List Packet) : Prop where
  rows : packets.filter (·.typ = msgDataRow) = stream.rows.map (dataRow lib)
  complete : stream.failure = none →
    ∃ tag, packets.filter (·.typ = msgCommandComplete) = [commandComplete tag] ∧
    tagCount tag = some stream.rows.length
  failed : stream.failure≠none → (∃ p ∈ packets, p.typ = msgErrorResponse) ∧
    ∀ p ∈ packets, p.typ≠msgCommandComplete

/-- The tag has the number of rows: that of the result, or that in its message. -/
def Counted (result : Result) (n : ℕ) : Prop :=
  if result.rowsAffected = 0 ∧ result.message≠[] then tagCount result.message = some n else
    result.rowsAffected.toInt = n

lemma lastWord_append {a b : Bytes} (h : ∀ c ∈ b, c≠32) :
    ((a++32::b).reverse.takeWhile (·≠32)).reverse = b := by
  rw [List.reverse_append,List.reverse_cons,List.append_assoc,
    List.takeWhile_append_of_pos (by simpa using h)]
  simp

lemma tagCount_select (i : Int64) (n : ℕ) : tagCount (ascii "SELECT "++decimalInt i) = some n ↔
      i.toInt = n := by
  have hdigit : ∀ c ∈ decimal i.toInt.natAbs, c≠32 := by
    rintro c hc rfl
    exact absurd (isDigit_decimal hc) (by decide)
  have hnil := decimal_ne_nil i.toInt.natAbs
  have hall : (decimal i.toInt.natAbs).any (!isDigit ·) = false := by
    rw [List.any_eq_false]
    intro c hc
    simp [isDigit_decimal hc]
  rw [show ascii "SELECT " = ascii "SELECT"++[32] from rfl,List.append_assoc,List.singleton_append,
    decimalInt]
  split_ifs with hneg
  · have hint : i.toInt < 0 := by simpa using Int64.lt_iff_toInt_lt.mp hneg
    have hminus : ∀ c ∈ 45::decimal i.toInt.natAbs, c≠32 := List.forall_mem_cons.mpr ⟨by decide,hdigit⟩
    simp only [tagCount,lastWord_append hminus]
    rw [if_pos (.inr (by simp [show isDigit 45 = false from rfl]))]
    constructor
    · intro h
      cases h
    · intro h
      omega
  · have hint : 0 ≤ i.toInt := by simpa using Int64.le_iff_toInt_le.mp (Int64.not_lt.mp hneg)
    simp only [tagCount,lastWord_append hdigit]
    rw [if_neg (by simp [hnil,hall]),digitsVal_decimal,Option.some.injEq]
    omega

lemma tagCount_completionTag (result : Result) (n : ℕ) : tagCount (completionTag result) = some n ↔
      Counted result n := by
  rw [completionTag,Counted]
  split_ifs
  · rfl
  · exact tagCount_select _ n

section Packets
variable {Stmt R : Type} {deps : Deps Stmt R} {result : Result} {stream : RowStream}

lemma resultPackets_of_stream (hstream : result.stream = some stream) : resultPackets deps result =
    rowDescription stream.schema::stream.rows.map
      (dataRow deps.lib)++[commandComplete (completionTag result),readyForQuery idle] := by
  rw [resultPackets,hstream]

lemma filter_dataRow (hstream : result.stream = some stream) :
    (resultPackets deps result).filter (·.typ = msgDataRow) = stream.rows.map (dataRow deps.lib) := by
  have hall : (stream.rows.map (dataRow deps.lib)).filter (·.typ = msgDataRow) =
    stream.rows.map (dataRow deps.lib) := by
    rw [List.filter_eq_self]
    intro p hp
    obtain ⟨row,-,rfl⟩ := List.mem_map.mp hp
    rfl
  have hhead : (rowDescription stream.schema).typ≠msgDataRow := show msgRowDescription≠msgDataRow by decide
  rw [resultPackets_of_stream hstream,List.filter_append,
    List.filter_cons_of_neg (by simpa using hhead),hall]
  exact List.append_nil _

lemma filter_commandComplete (hstream : result.stream = some stream) :
    (resultPackets deps result).filter (·.typ = msgCommandComplete) =
      [commandComplete (completionTag result)] := by
  have hnone : (stream.rows.map (dataRow deps.lib)).filter (·.typ = msgCommandComplete) = [] := by
    rw [List.filter_eq_nil_iff]
    intro p hp
    obtain ⟨row,-,rfl⟩ := List.mem_map.mp hp
    simp [dataRow,msgDataRow,msgCommandComplete]
  have hhead : (rowDescription stream.schema).typ≠msgCommandComplete :=
    show msgRowDescription≠msgCommandComplete by decide
  rw [resultPackets_of_stream hstream,List.filter_append,
    List.filter_cons_of_neg (by simpa using hhead),hnone]
  rfl

/-- The packets are right exactly where the stream ends and the tag happens to have the number of
its rows. -/
lemma faithful_iff (hstream : result.stream = some stream) :
    Faithful deps.lib stream (resultPackets deps result) ↔ stream.failure = none ∧
      Counted result stream.rows.length := by
  constructor
  · intro h
    have hend : stream.failure = none := by
      by_contra hfail
      refine (h.failed hfail).2 (commandComplete (completionTag result)) ?_ rfl
      rw [resultPackets_of_stream hstream]
      simp
    obtain ⟨tag,htag,hcount⟩ := h.complete hend
    rw [filter_commandComplete hstream] at htag
    have heq : completionTag result = tag := by simpa [commandComplete] using htag
    exact ⟨hend,(tagCount_completionTag result _).mp (heq ▸ hcount)⟩
  · rintro ⟨hend,hcount⟩
    exact ⟨filter_dataRow hstream,fun _ =>
      ⟨_,filter_commandComplete hstream,(tagCount_completionTag result _).mpr hcount⟩,
      fun h => absurd hend h⟩

end Packets

/-- A routed row stream is reported faithfully exactly if it ends with `io.EOF` and its result
counts its rows. -/
theorem stream_reported_iff {Stmt R : Type} (deps : Deps Stmt R) (sql : Bytes) (s : Session R)
    (stmt : Stmt) (result : Result)
    (stream : RowStream) (r : R) (hmock : mockAnswer deps.lib sql = none)
    (hparse : deps.parse sql = .ok stmt)
    (hroute : deps.route s.router stmt = (.ok result,r)) (hstream : result.stream = some stream) :
    ∃ packets : List Packet, (executeSQL deps sql s).sent = s.sent++packets.map .packet ∧
      (Faithful deps.lib stream packets ↔ stream.failure = none ∧ Counted result stream.rows.length) := by
  refine ⟨resultPackets deps result,?_,faithful_iff hstream⟩
  simp only [executeSQL,hmock,hparse,hroute]
  rfl

/-- `Sscanf` with `%d` on ASCII. -/
def sscanDecimal (b : Bytes) : Option Int64 :=
  let (negative,rest) := splitSign (b.dropWhile (· = 32))
  match rest.takeWhile isDigit with
  | [] => none
  | digits => signed negative (digitsVal digits)

def plainServerLib : ServerLib where
  toGoLib := plainLib
  toUpper b := b
  formatFloat _ := []
  floatAdd a _ := a
  sscanInt := sscanDecimal
  sscanFloat _ := none

/-- Any text but the empty one is a statement, and each is answered with this result. -/
def answering (result : Result) : Deps Bytes Unit where
  lib := plainServerLib
  parse sql := if sql = [] then .error (ascii "empty SQL") else .ok sql
  route _ _ := (.ok result,())

def oneRow (failure : Option Bytes) : RowStream := ⟨textColumn "name",[textRow "x"],failure⟩

def twoRows : RowStream := ⟨textColumn "name",[textRow "x",textRow "y"],none⟩

/-- Two rows are sent and reported as two. -/
theorem two_rows_reported : ∃ packets : List Packet,
    (executeSQL (answering ⟨some twoRows,2,[]⟩) (ascii "SELECT name FROM t")
      (newSession () [])).sent = packets.map .packet ∧ Faithful plainServerLib twoRows packets := by
  obtain ⟨packets,hsent,hiff⟩ := stream_reported_iff (answering ⟨some twoRows,2,[]⟩)
    (ascii "SELECT name FROM t") (newSession () []) _ _ twoRows () (by decide +kernel) rfl rfl rfl
  exact ⟨packets,hsent,hiff.mpr ⟨rfl,by simp [Counted,twoRows]⟩⟩

def oneRowPackets : List Packet :=
  [rowDescription (textColumn "name"),dataRow plainServerLib (textRow "x"),
    commandComplete (ascii "SELECT 0"),readyForQuery idle]

/-- A row is sent and reported as none, and so it is when the stream fails after it. -/
theorem row_not_counted : [none,some (ascii "disk failure")].Forall fun failure =>
    (executeSQL (answering ⟨some (oneRow failure),0,[]⟩) (ascii "SELECT name FROM t")
      (newSession () [])).sent =
      oneRowPackets.map .packet ∧ ¬ Faithful plainServerLib (oneRow failure) oneRowPackets := by
  refine List.forall_iff_forall_mem.mpr fun failure hfailure => ?_
  refine ⟨by revert failure; decide +kernel,fun h => ?_⟩
  by_cases hend : failure = none
  · obtain ⟨tag,htag,hcount⟩ := h.complete hend
    have heq : ascii "SELECT 0" = tag := by
      have hfilter : oneRowPackets.filter (·.typ = msgCommandComplete) =
        [commandComplete (ascii "SELECT 0")] := by decide +kernel
      simpa [commandComplete] using hfilter.symm.trans htag
    rw [← heq] at hcount
    exact absurd hcount (show tagCount (ascii "SELECT 0")≠some 1 by decide)
  · exact (h.failed hend).2 (commandComplete (ascii "SELECT 0")) (by decide +kernel) rfl

end Plomvix.Server
