import Plomvix.Server.Ready

/-! What is kept of a Parse and of a Bind message. The message is split at its null bytes, and so
are the numbers in it. -/
namespace Plomvix.Server
open Lib Engine Planner

variable {Stmt R : Type}

/-- The datum that a transmitted parameter stands for. -/
def paramDatum (lib : ServerLib) : Option Bytes → Datum
  | none => ⟨.null,.nil⟩
  | some b => textToDatum lib b

def paramLen (rest : Bytes) (pos : ℕ) : ℤ := (BitVec.ofNat 32 (beNat ((rest.drop pos).take 4))).toInt

/-- Of so many parameters from a position on, one has a length below -1. A parameter that is longer
than the rest is passed over. -/
def NegativeLength (rest : Bytes) : ℕ → ℕ → Prop
  | 0,_ => False
  | n+1,pos => pos+4 ≤ rest.length ∧ (paramLen rest pos < -1 ∨
      NegativeLength rest n (pos+4+if (pos+4 : ℕ)+paramLen rest pos ≤ rest.length then
        (paramLen rest pos).toNat else 0))

/-- What follows the number of format codes and the codes begins with the number of the parameters. -/
def NegativeParam (rest : Bytes) : Prop :=
  let pos := 2+beNat (rest.take 2)*2
  2 ≤ rest.length ∧ pos+2 ≤ rest.length ∧ NegativeLength rest (beNat ((rest.drop pos).take 2)) (pos+2)

lemma splitNull_names {a b c : Bytes} (ha : (0 : UInt8) ∉ a) (hb : (0 : UInt8) ∉ b) (hc : c≠[]) :
    ∃ more, splitNull (a++0::(b++0::c)) = a::b::c.takeWhile (·≠0)::more := by
  obtain ⟨more,hmore⟩ := splitOn_head c
  rw [splitNull,splitOn_append ha,splitOn_append hb,hmore]
  cases more with
  | cons p more =>
    split_ifs
    · exact ⟨_,rfl⟩
    · exact ⟨_,rfl⟩
  | nil =>
    -- there is no null byte in the rest, so the last part is not empty
    have hwhole : c.takeWhile (·≠0) = c := by
      have hjoin : [0].intercalate (c.splitOn 0) = c := List.intercalate_splitOn 0
      rwa [hmore,List.intercalate_singleton] at hjoin
    rw [hwhole]
    exact ⟨[],if_neg (by simpa using hc)⟩

section Types
variable {oids : List ℕ}

lemma length_paramOIDs (n : ℕ) (b : Bytes) : 4*(paramOIDs n b).length ≤ b.length := by
  induction n generalizing b with
  | zero => exact Nat.zero_le _
  | succ n ih =>
    rw [paramOIDs]
    split_ifs with hlen
    · have hrest := ih (b.drop 4)
      rw [List.length_drop] at hrest
      rw [List.length_cons]
      omega
    · exact Nat.zero_le _

lemma paramOIDs_flatMap (h : ∀ oid ∈ oids, oid < 2^32) :
    paramOIDs oids.length (oids.flatMap (beBytes 4)) = oids := by
  induction oids with
  | nil => rfl
  | cons oid oids ih =>
    have hoid : beNat (beBytes 4 oid) = oid := beNat_beBytes (h oid (List.mem_cons_self ..))
    rw [List.length_cons,paramOIDs,if_pos (by simp),List.flatMap_cons,List.take_left' (beBytes_length ..),
      List.drop_left' (beBytes_length ..),hoid,ih fun x hx => h x (List.mem_cons_of_mem _ hx)]

lemma keptOIDs_iff (hlen : oids.length < 2^16) (h : ∀ oid ∈ oids, oid < 2^32) {types rest : Bytes}
    (htypes : types = beBytes 2 oids.length++oids.flatMap (beBytes 4))
    (hrest : rest = types.takeWhile (·≠0)) :
    (if 2 ≤ rest.length then paramOIDs (beNat (rest.take 2)) (rest.drop 2) else []) = oids ↔
      oids = [] ∨ (0 : UInt8) ∉ types := by
  have htotal : types.length = 2+4*oids.length := by
    rw [htypes,List.length_append,beBytes_length,List.length_flatMap,
      List.map_congr_left fun oid _ => beBytes_length 4 oid]
    simp [Nat.mul_comm]
  by_cases hzero : (0 : UInt8) ∈ types
  · have hshort : rest.length < types.length := by
      rw [hrest]
      refine lt_of_le_of_ne (List.takeWhile_prefix _).length_le fun heq => ?_
      have hall := List.takeWhile_eq_self_iff.mp ((List.takeWhile_prefix _).eq_of_length heq) 0 hzero
      simp at hall
    have hempty : oids = [] → rest = [] := by
      rintro rfl
      rw [hrest,htypes]
      rfl
    constructor
    · intro hkept
      split_ifs at hkept with h2
      · have hfew := length_paramOIDs (beNat (rest.take 2)) (rest.drop 2)
        rw [hkept,List.length_drop] at hfew
        omega
      · exact .inl hkept.symm
    · rintro (hnil | hno)
      · rw [hempty hnil,hnil]
        rfl
      · exact absurd hzero hno
  · have hwhole : rest = types := by
      rw [hrest,List.takeWhile_eq_self_iff]
      intro x hx
      simp only [ne_eq,decide_not,Bool.not_eq_eq_eq_not,Bool.not_true,decide_eq_false_iff_not]
      rintro rfl
      exact hzero hx
    refine iff_of_true ?_ (.inr hzero)
    rw [hwhole,if_pos (by omega),htypes,List.take_left' (beBytes_length ..),
      List.drop_left' (beBytes_length ..),beNat_beBytes hlen,
      paramOIDs_flatMap h]

end Types

section Panic
variable {deps : Deps Stmt R}

lemma bindParams_eq_none (rest : Bytes) (n pos : ℕ) :
    bindParams deps rest n pos = none ↔ NegativeLength rest n pos := by
  induction n generalizing pos with
  | zero => exact iff_of_false (by simp [bindParams]) id
  | succ n ih =>
    rw [bindParams,NegativeLength]
    by_cases hroom : pos+4 ≤ rest.length
    · rw [if_pos hroom,and_iff_right hroom]
      unfold paramLen
      generalize (BitVec.ofNat 32 (beNat ((rest.drop pos).take 4))).toInt = len
      dsimp only
      by_cases hnull : len = -1
      · rw [if_pos hnull,Option.map_eq_none_iff,ih,hnull]
        simp
      rw [if_neg hnull]
      by_cases hthere : (pos+4 : ℕ)+len ≤ rest.length
      · rw [if_pos hthere,if_pos hthere]
        by_cases hneg : len < 0
        · rw [if_pos hneg]
          exact iff_of_true rfl (.inl (by omega))
        · rw [if_neg hneg,Option.map_eq_none_iff,ih,or_iff_right (by omega)]
      · rw [if_neg hthere,if_neg hthere,ih,or_iff_right (by omega)]
    · rw [if_neg hroom]
      exact iff_of_false (by simp) fun h => hroom h.1

lemma bindValues_eq_none (rest : Bytes) : bindValues deps rest = none ↔ NegativeParam rest := by
  rw [bindValues,NegativeParam]
  by_cases h2 : 2 ≤ rest.length
  · rw [if_pos h2,and_iff_right h2]
    dsimp only
    split_ifs with hpos
    · rw [bindParams_eq_none,and_iff_right hpos]
    · exact iff_of_false (by simp) fun h => hpos h.1
  · rw [if_neg h2]
    exact iff_of_false (by simp) fun h => h2 h.1

end Panic

/-- A Parse keeps its types if there are none, or if no null byte is in them; a Bind keeps its
parameters if there are none; and a Bind panics at a negative length. -/
theorem messages_decoded_iff (deps : Deps Stmt R) (s : Session R) :
    (∀ name sql oids, (Body.parse name sql oids).Fits →
      ((handleParse (Body.parse name sql oids).payload s).statements name.val =
        some ⟨name.val,sql.val,oids⟩ ↔
        oids = [] ∨ (0 : UInt8) ∉ beBytes 2 oids.length++oids.flatMap (beBytes 4))) ∧
    (∀ portal stmt formats params resultFormats, (s.statements stmt.val = none → stmt.val = []) →
      ∃ s', handleBind deps (Body.bind portal stmt formats params resultFormats).payload s = some s' ∧
        (s'.portals portal.val = some ⟨portal.val,stmt.val,params.map (paramDatum deps.lib)⟩ ↔
          params = [])) ∧
    ∀ payload, handleBind deps payload s = none ↔
      ∃ portalName stmtName rest more, splitNull payload = portalName::stmtName::rest::more ∧
      (s.statements stmtName = none → stmtName = []) ∧ NegativeParam rest := by
  refine ⟨fun name sql oids hfits => ?_,fun portal stmt formats params resultFormats hknown =>
    ?_,fun payload => ?_⟩
  · obtain ⟨more,hparts⟩ := splitNull_names name.property sql.property
      (c := beBytes 2 oids.length++oids.flatMap (beBytes 4)) (by
      intro h
      have hlen := congrArg List.length h
      simp at hlen)
    rw [handleParse,Body.payload,hparts]
    simp only [Session.write,Function.update_self,Option.some.injEq,PreparedPlan.mk.injEq,true_and]
    exact keptOIDs_iff hfits.1 hfits.2 rfl rfl
  · have htail : bindTail formats params resultFormats≠[] := by
      intro h
      have hlen := congrArg List.length h
      simp [bindTail,formatCodes] at hlen
    obtain ⟨more,hparts⟩ := splitNull_names portal.property stmt.property htail
    rw [handleBind,Body.payload,hparts]
    simp only [bindValues_of_short (length_bindTail_takeWhile formats params resultFormats)]
    rw [if_neg fun h => h.2 (hknown h.1)]
    refine ⟨_,rfl,?_⟩
    simp only [Session.write,Function.update_self,Option.some.injEq,Portal.mk.injEq,true_and]
    rw [eq_comm,List.map_eq_nil_iff]
  · rw [handleBind]
    split
    · rename_i portalName stmtName rest more hparts
      rw [hparts]
      split_ifs with hunknown
      · refine iff_of_false (by simp) ?_
        rintro ⟨_,_,_,_,heq,hknown,-⟩
        simp only [List.cons.injEq] at heq
        obtain ⟨rfl,rfl,-⟩ := heq
        exact hunknown.2 (hknown hunknown.1)
      · rw [Option.map_eq_none_iff,bindValues_eq_none]
        refine ⟨fun h => ⟨_,_,_,_,rfl,fun hnone => not_not.mp fun hne => hunknown ⟨hnone,hne⟩,h⟩,?_⟩
        rintro ⟨_,_,_,_,heq,-,h⟩
        simp only [List.cons.injEq] at heq
        obtain ⟨rfl,rfl,rfl,rfl⟩ := heq
        exact h
    · rename_i hshort
      refine iff_of_false (by simp) ?_
      rintro ⟨portalName,stmtName,rest,more,hparts,-⟩
      exact hshort _ _ _ _ hparts

/-- A Parse that declares one parameter, a Bind that transmits one, and a Bind with 257 format codes
and the length -2. -/
theorem messages_misread :
    (handleParse (Body.parse unnamed ⟨ascii "SELECT $1",by decide⟩ [23]).payload
      (newSession () [])).statements [] =
      some ⟨[],ascii "SELECT $1",[]⟩ ∧
    ((handleBind selecting (Body.bind unnamed unnamed [] [some (ascii "x")] []).payload
      (newSession () [])).bind fun s => s.portals []) =
      some ⟨[],[],[]⟩ ∧
    handleBind selecting ([0,0,1,1]++List.replicate 514 1++[1,1,255,255,255,254])
      (newSession () []) = none :=
  ⟨by decide +kernel,by decide +kernel,Option.isNone_iff_eq_none.mp (by decide +kernel)⟩

end Plomvix.Server
