import Plomvix.Server.Answers

/-! The parameters of a prepared statement: the text that is executed against the simultaneous
substitution of literals. -/
namespace Plomvix.Server
open Lib Engine Planner

def nth {α : Type} (l : List α) (digits : Bytes) : Option α :=
  if digits = decimal (digitsVal digits) ∧ digitsVal digits≠0 then l[digitsVal digits-1]? else none

/-- Each `$` with a maximal run of digits that names a value is replaced by it, in one pass; so many
bytes in front belong to the last one. -/
def substitute (vals : List Bytes) : ℕ → Bytes → Bytes
  | _,[] => []
  | skip+1,_::s => substitute vals skip s
  | 0,c::s =>
    match if c = 36 then nth vals (s.takeWhile isDigit) else none with
    | some val => val++substitute vals (s.takeWhile isDigit).length s
    | none => c::substitute vals 0 s

/-- What follows each `$` up to the next. -/
def pieces (sql : Bytes) : List Bytes := (sql.splitOn 36).tail

def isNumber (b : Bytes) : Bool :=
  let b := if b.head? = some 45 then b.tail else b
  let fraction := b.dropWhile isDigit
  !(b.takeWhile isDigit).isEmpty && (fraction.isEmpty || (fraction.head? =
    some 46 && !fraction.tail.isEmpty && fraction.tail.all isDigit))

def unquote : Bytes → Option Bytes
  | [] => some []
  | [c] => if c = 39 then none else some [c]
  | c::d::s =>
    if c = 39 then if d = 39 then (unquote s).map (39::·) else none else (unquote (d::s)).map (c::·)

def denoted (lit : Bytes) : Option Bytes :=
  if isNumber lit then some lit
  else if lit.head? = some 39 ∧ lit.tail.getLast? = some 39 then unquote lit.tail.dropLast
  else none

def Denotes (lit : Bytes) : Option Bytes → Prop
  | none => lit = ascii "NULL"
  | some text => denoted lit = some text

/-- A bound parameter: null, or a text. -/
def boundDatum (lib : ServerLib) : Option Bytes → Datum
  | none => ⟨.null,.nil⟩
  | some text => textToDatum lib text

/-- What a parameter is replaced by. -/
def boundText (lib : ServerLib) (text : Option Bytes) : Bytes := datumToText lib (boundDatum lib text)

section Nth
variable {α : Type} {l : List α} {digits : Bytes}

@[simp] lemma nth_decimal (n : ℕ) : nth l (decimal (n+1)) = l[n]? := by simp [nth,digitsVal_decimal]

lemma nth_eq_some {a : α} : nth l digits = some a ↔ ∃ n, digits = decimal (n+1) ∧ l[n]? = some a := by
  constructor
  · intro h
    rw [nth] at h
    split_ifs at h with hd
    have hpos : digitsVal digits-1+1 = digitsVal digits := by omega
    exact ⟨digitsVal digits-1,by rw [hpos]; exact hd.1,h⟩
  · rintro ⟨n,rfl,h⟩
    rw [nth_decimal,h]

lemma nth_map {β : Type} (f : α → β) : nth (l.map f) digits = (nth l digits).map f := by
  rw [nth,nth]
  split_ifs <;> simp

lemma nth_append_left {a : α} (l' : List α) (h : nth l digits = some a) : nth (l++l') digits = some a := by
  obtain ⟨i,hi,hget⟩ := nth_eq_some.mp h
  have hlt := (List.getElem?_eq_some_iff.mp hget).1
  exact nth_eq_some.mpr ⟨i,hi,by rw [List.getElem?_append_left hlt,hget]⟩

lemma nth_concat (a : α) : nth (l++[a]) digits = if digits = decimal (l.length+1) then some a else
    nth l digits := by
  split_ifs with h
  · rw [h,nth_decimal,List.getElem?_concat_length]
  · ext b
    rw [nth_eq_some,nth_eq_some]
    refine exists_congr fun n => and_congr_right fun hn => ?_
    have hne : n≠l.length := fun heq => h (heq ▸ hn)
    rw [List.getElem?_append]
    split_ifs with hlt
    · rfl
    · simp [List.getElem?_eq_none_iff.mpr (not_lt.mp hlt),show n-l.length≠0 by omega]

end Nth

section Scan
variable {vals : List Bytes} {old new a : Bytes}

lemma substitute_skip (a b : Bytes) : substitute vals a.length (a++b) = substitute vals 0 b := by
  induction a with
  | nil => rfl
  | cons c a ih => simpa [substitute] using ih

lemma replaceAll_skip (a b : Bytes) : replaceAll old new a.length (a++b) = replaceAll old new 0 b := by
  induction a with
  | nil => rfl
  | cons c a ih => simpa [replaceAll] using ih

lemma substitute_append (ha : 36 ∉ a) (b : Bytes) : substitute vals 0 (a++b) = a++substitute vals 0 b := by
  induction a with
  | nil => rfl
  | cons c a ih =>
    obtain ⟨hc,ha⟩ := not_or.mp (List.mem_cons.not.mp ha)
    rw [List.cons_append,substitute,if_neg (Ne.symm hc),ih ha]
    rfl

lemma replaceAll_append (ha : 36 ∉ a) (b : Bytes) :
    replaceAll (36::old) new 0 (a++b) = a++replaceAll (36::old) new 0 b := by
  induction a with
  | nil => rfl
  | cons c a ih =>
    obtain ⟨hc,ha⟩ := not_or.mp (List.mem_cons.not.mp ha)
    rw [List.cons_append,replaceAll,if_neg fun h => hc (List.cons_prefix_cons.mp h).1,ih ha]
    rfl

lemma exists_head (sql : Bytes) : ∃ head, 36 ∉ head ∧ (∀ p ∈ pieces sql, 36 ∉ p) ∧
      sql = head++(pieces sql).flatMap (36::·) := by
  suffices ∃ head ps, sql.splitOn 36 = head::ps ∧ 36 ∉ head ∧ (∀ p ∈ ps, 36 ∉ p) ∧
    sql = head++ps.flatMap (36::·) by
    obtain ⟨head,ps,hsplit,hhead,hps,hsql⟩ := this
    have hpieces : pieces sql = ps := by rw [pieces,hsplit,List.tail_cons]
    exact ⟨head,hhead,hpieces ▸ hps,hpieces ▸ hsql⟩
  induction sql with
  | nil => exact ⟨[],[],rfl,List.not_mem_nil,by simp,rfl⟩
  | cons c sql ih =>
    obtain ⟨head,ps,hsplit,hhead,hps,hsql⟩ := ih
    rw [List.splitOn] at hsplit ⊢
    rw [List.splitOnP_cons_eq_if_modifyHead,hsplit]
    by_cases hc : c = 36
    · refine ⟨[],head::ps,if_pos (by simp [hc]),List.not_mem_nil,List.forall_mem_cons.mpr ⟨hhead,hps⟩,?_⟩
      rw [hc,List.flatMap_cons,List.cons_append,← hsql,List.nil_append]
    · refine ⟨c::head,ps,if_neg (by simpa using hc),?_,hps,by rw [List.cons_append,← hsql]⟩
      exact List.mem_cons.not.mpr (not_or.mpr ⟨Ne.symm hc,hhead⟩)

/-- A piece with its `$`, once the values are put in. -/
def filled (vals : List Bytes) (p : Bytes) : Bytes :=
  match nth vals (p.takeWhile isDigit) with
  | some val => val++p.dropWhile isDigit
  | none => 36::p

lemma filled_of_some {p val : Bytes} (h : nth vals (p.takeWhile isDigit) = some val) :
    filled vals p = val++p.dropWhile isDigit := by
  rw [filled,h]

lemma filled_of_none {p : Bytes} (h : nth vals (p.takeWhile isDigit) = none) :
    filled vals p = 36::p := by rw [filled,h]

lemma not_mem_dropWhile {p : Bytes} (h : 36 ∉ p) : 36 ∉ p.dropWhile isDigit :=
  fun hmem => h (List.dropWhile_subset _ hmem)

lemma takeWhile_pieces (p : Bytes) (ps : List Bytes) :
    (p++ps.flatMap (36::·)).takeWhile isDigit = p.takeWhile isDigit := by
  rw [List.takeWhile_append]
  split_ifs with h
  · rw [(List.takeWhile_prefix isDigit).eq_of_length h]
    cases ps with
    | nil => simp
    | cons p' ps => simp [show isDigit 36 = false from rfl]
  · rfl

lemma substitute_pieces (ps : List Bytes) (hps : ∀ p ∈ ps, 36 ∉ p) :
    substitute vals 0 (ps.flatMap (36::·)) = ps.flatMap (filled vals) := by
  induction ps with
  | nil => rfl
  | cons p ps ih =>
    obtain ⟨hp,hps⟩ := List.forall_mem_cons.mp hps
    rw [List.flatMap_cons,List.flatMap_cons,List.cons_append,substitute,if_pos rfl,takeWhile_pieces,
      ← ih hps]
    cases hval : nth vals (p.takeWhile isDigit) with
    | some val =>
      have hsplit : p = p.takeWhile isDigit++p.dropWhile isDigit := List.takeWhile_append_dropWhile.symm
      rw [filled_of_some hval,List.append_assoc]
      nth_rewrite 2 [hsplit]
      rw [List.append_assoc,substitute_skip,substitute_append (not_mem_dropWhile hp)]
    | none => rw [filled_of_none hval,List.cons_append,substitute_append hp]

end Scan

/-- No number of a parameter is the beginning of a longer run of digits, and where a `$` is followed by
another, the number of a parameter does not begin the text that stands there when its turn comes. -/
structure Apart (vals ps : List Bytes) : Prop where
  runs : ∀ p ∈ ps, ∀ i < vals.length, decimal (i+1) <+: p → p.takeWhile isDigit = decimal (i+1)
  dollars : ∀ i < vals.length, ∀ rest, []::rest <:+ ps →
    ¬ decimal (i+1) <+: rest.flatMap (filled (vals.take i))

section Fill
variable {vals later ps : List Bytes} {p v : Bytes}

lemma Apart.tail (h : Apart vals (p::ps)) : Apart vals ps :=
  ⟨fun q hq => h.runs q (List.mem_cons_of_mem _ hq),
    fun i hi rest hrest => h.dollars i hi rest (hrest.trans (List.suffix_cons ..))⟩

lemma not_begins (h : Apart (vals++v::later) (p::ps)) (hnone : nth vals (p.takeWhile isDigit) = none)
    (hne : p.takeWhile isDigit≠decimal (vals.length+1)) :
    ¬ decimal (vals.length+1) <+: p++ps.flatMap (filled vals) := by
  intro hbegins
  have hlen : vals.length < (vals++v::later).length := by simp
  obtain hin | hout := List.prefix_or_prefix_of_prefix hbegins (List.prefix_append p _)
  · exact hne (h.runs p (List.mem_cons_self ..) _ hlen hin)
  by_cases hp : p = []
  · subst hp
    have hdollars := h.dollars _ hlen ps List.suffix_rfl
    rw [List.take_left] at hdollars
    exact hdollars hbegins
  · -- the piece is a number before the next one, whose value is already in
    obtain ⟨m,hm,hle,hpm⟩ := decimal_of_isPrefix (Nat.succ_pos _) hout hp
    have hrun : p.takeWhile isDigit = p :=
      List.takeWhile_eq_self_iff.mpr fun c hc => isDigit_decimal (hout.subset hc)
    rw [hrun,hpm] at hne hnone
    obtain ⟨i,rfl⟩ := Nat.exists_eq_succ_of_ne_zero hm.ne'
    rw [Nat.succ_eq_add_one,nth_decimal,List.getElem?_eq_none_iff] at hnone
    have hi : i = vals.length := by omega
    exact hne (by rw [hi])

lemma replaceAll_filled (h : Apart (vals++v::later) ps) (hps : ∀ p ∈ ps, 36 ∉ p)
    (hvals : ∀ p ∈ ps, ∀ val, nth vals (p.takeWhile isDigit) = some val → 36 ∉ val) :
    replaceAll (placeholder (vals.length+1)) v 0 (ps.flatMap (filled vals)) =
      ps.flatMap (filled (vals++[v])) := by
  induction ps with
  | nil => rfl
  | cons p ps ih =>
    obtain ⟨hp,hps⟩ := List.forall_mem_cons.mp hps
    obtain ⟨hval,hvals⟩ := List.forall_mem_cons.mp hvals
    have ih := ih h.tail hps hvals
    rw [placeholder] at ih ⊢
    rw [List.flatMap_cons,List.flatMap_cons,← ih]
    cases hnth : nth vals (p.takeWhile isDigit) with
    | some val =>
      rw [filled_of_some hnth,filled_of_some (nth_append_left [v] hnth),List.append_assoc,
        replaceAll_append (hval val hnth),replaceAll_append (not_mem_dropWhile hp),List.append_assoc]
    | none =>
      rw [filled_of_none hnth,List.cons_append,replaceAll]
      by_cases hrun : p.takeWhile isDigit = decimal (vals.length+1)
      · have hsplit : p = decimal (vals.length+1)++p.dropWhile isDigit :=
          hrun ▸ List.takeWhile_append_dropWhile.symm
        have hfound : decimal (vals.length+1) <+: p++ps.flatMap (filled vals) :=
          (hrun ▸ List.takeWhile_prefix isDigit).trans (List.prefix_append ..)
        have hnew : nth (vals++[v]) (p.takeWhile isDigit) = some v := by rw [nth_concat,if_pos hrun]
        rw [if_pos (List.cons_prefix_cons.mpr ⟨rfl,hfound⟩),filled_of_some hnew,List.append_assoc]
        nth_rewrite 1 [hsplit]
        rw [List.length_cons,Nat.add_sub_cancel,List.append_assoc,replaceAll_skip,
          replaceAll_append (not_mem_dropWhile hp)]
      · have hsame : nth (vals++[v]) (p.takeWhile isDigit) = none := by
          rw [nth_concat,if_neg hrun,hnth]
        rw [if_neg fun hbegins => not_begins h hnth hrun (List.cons_prefix_cons.mp hbegins).2,
          filled_of_none hsame,replaceAll_append hp,List.cons_append]

lemma substituteParams_filled {Stmt R : Type} (deps : Deps Stmt R) (params : List Datum)
    (vals : List Bytes) {head : Bytes} (hhead : 36 ∉ head)
    (h : Apart (vals++params.map (datumToText deps.lib)) ps) (hps : ∀ p ∈ ps, 36 ∉ p)
    (hvals : ∀ p ∈ ps, ∀ val, nth (vals++params.map (datumToText deps.lib)) (p.takeWhile isDigit) =
      some val → 36 ∉ val) :
    substituteParams deps (head++ps.flatMap (filled vals)) vals.length params =
      head++ps.flatMap (filled (vals++params.map (datumToText deps.lib))) := by
  induction params generalizing vals with
  | nil => simp [substituteParams]
  | cons param params ih =>
    have hconcat : vals++(param::params).map (datumToText deps.lib) =
        (vals++[datumToText deps.lib param])++params.map (datumToText deps.lib) := by simp
    have hbefore : ∀ p ∈ ps, ∀ val, nth vals (p.takeWhile isDigit) = some val → 36 ∉ val := by
      intro p hp val hval
      exact hvals p hp val (nth_append_left _ hval)
    have hnext := ih (vals++[datumToText deps.lib param]) (hconcat ▸ h) (hconcat ▸ hvals)
    rw [List.length_append,List.length_singleton] at hnext
    rw [substituteParams,placeholder,replaceAll_append hhead,← placeholder,
      replaceAll_filled (by simpa using h) hps hbefore,hnext,hconcat]

lemma exists_filled (sql : Bytes) : ∃ head, 36 ∉ head ∧ (∀ p ∈ pieces sql, 36 ∉ p) ∧
    sql = head++(pieces sql).flatMap (filled []) ∧
    ∀ vals, substitute vals 0 sql = head++(pieces sql).flatMap (filled vals) := by
  obtain ⟨head,hhead,hps,hsql⟩ := exists_head sql
  have hplain : filled [] = (36::·) := funext fun p => filled_of_none (by simp [nth])
  refine ⟨head,hhead,hps,hplain ▸ hsql,fun vals => ?_⟩
  calc substitute vals 0 sql = substitute vals 0 (head++(pieces sql).flatMap (36::·)) := by rw [← hsql]
    _ = head++substitute vals 0 ((pieces sql).flatMap (36::·)) := substitute_append hhead _
    _ = head++(pieces sql).flatMap (filled vals) := by rw [substitute_pieces _ hps]

lemma substituteParams_eq {Stmt R : Type} (deps : Deps Stmt R) (params : List Datum) (sql : Bytes)
    (h : Apart (params.map (datumToText deps.lib)) (pieces sql))
    (hvals : ∀ p ∈ pieces sql, ∀ val, nth (params.map (datumToText deps.lib)) (p.takeWhile isDigit) =
      some val → 36 ∉ val) :
    substituteParams deps sql 0 params = substitute (params.map (datumToText deps.lib)) 0 sql := by
  obtain ⟨head,hhead,hps,hsql,hfilled⟩ := exists_filled sql
  have hfill := substituteParams_filled deps params [] hhead h hps hvals
  rw [hfilled]
  nth_rewrite 1 [hsql]
  exact hfill

end Fill

/-! With at most nine parameters, none with a `$`, every replacement takes one `$` away, and there is
one for every placeholder: the condition is needed too. -/
section Count
variable {d e : UInt8} {new : Bytes} {vals ps : List Bytes} {p v : Bytes} {j : ℕ}

/-- How often a `$` is followed by this byte. -/
def followed (d : UInt8) : Bytes → ℕ
  | [] => 0
  | c::s => (if c = 36 ∧ s.head? = some d then 1 else 0)+followed d s

def digit (j : ℕ) : UInt8 := UInt8.ofNat (49+j)

/-- The pieces with the placeholder of the parameter `j`. -/
def placeholders (ps : List Bytes) (j : ℕ) : ℕ := ps.countP fun p => p.takeWhile isDigit = decimal (j+1)

def unfilled (vals ps : List Bytes) : ℕ := ps.countP fun p => (nth vals (p.takeWhile isDigit)).isNone

lemma decimal_digit (hj : j < 9) : decimal (j+1) = [digit j] := by
  interval_cases j <;> decide +kernel

lemma digit_ne (hj : j < 9) : digit j≠36 := by interval_cases j <;> decide

lemma digit_injective {i : ℕ} (hi : i < 9) (hj : j < 9) (h : digit i = digit j) : i = j := by
  have heq := congrArg UInt8.toNat h
  simp only [digit,UInt8.toNat_ofNat'] at heq
  omega

lemma prefix_digit {c : UInt8} {s : Bytes} : [36,d] <+: c::s ↔ c = 36 ∧ s.head? = some d := by
  cases s <;> simp [List.cons_prefix_cons,eq_comm]

lemma followed_append (hp : 36 ∉ p) (s : Bytes) : followed d (p++s) = followed d s := by
  induction p with
  | nil => rfl
  | cons c p ih =>
    obtain ⟨hc,hp⟩ := not_or.mp (List.mem_cons.not.mp hp)
    rw [List.cons_append,followed,if_neg fun h => hc h.1.symm,ih hp,Nat.zero_add]

lemma le_followed_append (p s : Bytes) : followed d s ≤ followed d (p++s) := by
  induction p with
  | nil => rfl
  | cons c p ih =>
    rw [List.cons_append,followed]
    omega

lemma count_replaceAll (hd : d≠36) (hnew : 36 ∉ new) :
    ∀ s : Bytes, (replaceAll [36,d] new 0 s).count 36+followed d s = s.count 36
  | [] => rfl
  | [c] => by
    rw [replaceAll,if_neg (by simp),followed,if_neg (by simp)]
    rfl
  | c::f::s => by
    rw [replaceAll,followed,List.count_cons]
    by_cases h : c = 36 ∧ (f::s).head? = some d
    · obtain ⟨rfl,hf⟩ := h
      obtain rfl := (Option.some.inj hf).symm
      rw [if_pos (prefix_digit.mpr ⟨rfl,rfl⟩),if_pos ⟨rfl,rfl⟩]
      have ih := count_replaceAll hd hnew s
      rw [show [36,d].length-1 = 1 from rfl,replaceAll,List.count_append,
        List.count_eq_zero_of_not_mem hnew,
        followed,if_neg fun h => hd h.1,List.count_cons_of_ne hd]
      simp
      omega
    · rw [if_neg (prefix_digit.not.mpr h),if_neg h,List.count_cons]
      have ih := count_replaceAll hd hnew (f::s)
      omega

/-- The other placeholders stay. -/
lemma followed_replaceAll (he : e≠36) (hde : d≠36) (hne : e≠d) :
    ∀ s : Bytes, followed e s ≤ followed e (replaceAll [36,d] new 0 s)
  | [] => le_rfl
  | [c] => by rw [replaceAll,if_neg (by simp),replaceAll]
  | c::f::s => by
    rw [replaceAll]
    by_cases h : c = 36 ∧ (f::s).head? = some d
    · obtain ⟨rfl,hf⟩ := h
      obtain rfl := (Option.some.inj hf).symm
      rw [if_pos (prefix_digit.mpr ⟨rfl,rfl⟩),show [36,d].length-1 = 1 from rfl,replaceAll,followed,
        if_neg (by simpa using Ne.symm hne),followed,if_neg fun h => hde h.1]
      have ih := followed_replaceAll he hde hne s
      have := le_followed_append (d := e) new (replaceAll [36,d] new 0 s)
      omega
    · have ih := followed_replaceAll he hde hne (f::s)
      rw [if_neg (prefix_digit.not.mpr h),followed.eq_def e (c::f::s),followed.eq_def e (c::_)]
      dsimp only
      by_cases hc : c = 36 ∧ (f::s).head? = some e
      · obtain ⟨rfl,hf⟩ := hc
        obtain rfl := (Option.some.inj hf).symm
        have hhead : (replaceAll [36,d] new 0 (e::s)).head? = some e := by
          rw [replaceAll,if_neg fun h => he (prefix_digit.mp h).1]
          rfl
        rw [if_pos ⟨rfl,rfl⟩,if_pos ⟨rfl,hhead⟩]
        omega
      · rw [if_neg hc]
        omega

lemma not_mem_of_nth {val : Bytes} (hvals : ∀ v ∈ vals, 36 ∉ v)
    (h : nth vals (p.takeWhile isDigit) = some val) : 36 ∉ val := by
  obtain ⟨i,-,hget⟩ := nth_eq_some.mp h
  exact hvals val (List.mem_of_getElem? hget)

lemma count_filled (hps : ∀ p ∈ ps, 36 ∉ p) (hvals : ∀ v ∈ vals, 36 ∉ v) :
    (ps.flatMap (filled vals)).count 36 = unfilled vals ps := by
  induction ps with
  | nil => rfl
  | cons p ps ih =>
    obtain ⟨hp,hps⟩ := List.forall_mem_cons.mp hps
    rw [List.flatMap_cons,List.count_append,ih hps,unfilled,unfilled,List.countP_cons]
    cases hnth : nth vals (p.takeWhile isDigit) with
    | some val =>
      rw [filled_of_some hnth,List.count_append,List.count_eq_zero_of_not_mem (not_mem_of_nth hvals hnth),
        List.count_eq_zero_of_not_mem (not_mem_dropWhile hp)]
      simp
    | none =>
      rw [filled_of_none hnth,List.count_cons_self,List.count_eq_zero_of_not_mem hp]
      simp [Nat.add_comm]

lemma unfilled_concat (vals ps : List Bytes) (v : Bytes) :
    unfilled vals ps = unfilled (vals++[v]) ps+placeholders ps vals.length := by
  induction ps with
  | nil => rfl
  | cons p ps ih =>
    simp only [unfilled,placeholders,List.countP_cons,nth_concat] at ih ⊢
    by_cases hrun : p.takeWhile isDigit = decimal (vals.length+1)
    · have hnone : nth vals (p.takeWhile isDigit) = none := by
        rw [hrun,nth_decimal]
        simp
      simp [hrun] at ih ⊢
      omega
    · simp [hrun]
      omega

/-- Where the pieces stand in the text, and what comes after each. -/
lemma followed_filled (hps : ∀ q ∈ p::ps, 36 ∉ q) (hvals : ∀ v ∈ vals, 36 ∉ v) :
    followed d ((p::ps).flatMap (filled vals)) = (if nth vals (p.takeWhile isDigit) = none ∧
      (p++ps.flatMap (filled vals)).head? = some d then 1 else
        0)+followed d (ps.flatMap (filled vals)) := by
  have hp := hps p (List.mem_cons_self ..)
  rw [List.flatMap_cons]
  cases hnth : nth vals (p.takeWhile isDigit) with
  | some val =>
    rw [filled_of_some hnth,List.append_assoc,followed_append (not_mem_of_nth hvals hnth),
      followed_append (not_mem_dropWhile hp)]
    simp
  | none =>
    rw [filled_of_none hnth,List.cons_append,followed,followed_append hp]
    simp

lemma head_of_run (hj : j < 9) (h : p.takeWhile isDigit = decimal (j+1)) (s : Bytes) :
    (p++s).head? = some (digit j) := by
  rw [decimal_digit hj] at h
  cases p with
  | nil => cases h
  | cons c p =>
    rw [List.takeWhile_cons] at h
    split at h
    · exact congrArg some (List.cons.inj h).1
    · cases h

lemma nth_of_run (hj : vals.length ≤ j) (h : p.takeWhile isDigit = decimal (j+1)) :
    nth vals (p.takeWhile isDigit) = none := by
  rw [h,nth_decimal,List.getElem?_eq_none_iff]
  exact hj

lemma placeholders_le_followed (hj : vals.length ≤ j) (hj9 : j < 9) (hps : ∀ q ∈ ps, 36 ∉ q)
    (hvals : ∀ v ∈ vals, 36 ∉ v) : placeholders ps j ≤ followed (digit j) (ps.flatMap (filled vals)) := by
  induction ps with
  | nil => rfl
  | cons p ps ih =>
    have ih := ih fun q hq => hps q (List.mem_cons_of_mem _ hq)
    rw [followed_filled hps hvals,placeholders,List.countP_cons,← placeholders]
    by_cases hrun : p.takeWhile isDigit = decimal (j+1)
    · rw [if_pos (by simpa using hrun),if_pos ⟨nth_of_run hj hrun,head_of_run hj9 hrun _⟩]
      omega
    · rw [if_neg (by simpa using hrun)]
      omega

/-- If there are not more of them, then each `$` before the digit is that of a placeholder. -/
lemma run_of_followed (hj : vals.length ≤ j) (hj9 : j < 9) (hps : ∀ q ∈ ps, 36 ∉ q)
    (hvals : ∀ v ∈ vals, 36 ∉ v) (hle : followed (digit j) (ps.flatMap (filled vals)) ≤ placeholders ps j)
    {rest : List Bytes} (hrest : p::rest <:+ ps) (hnone : nth vals (p.takeWhile isDigit) = none)
    (hhead : (p++rest.flatMap (filled vals)).head? = some (digit j)) :
    p.takeWhile isDigit = decimal (j+1) := by
  induction ps with
  | nil => exact absurd hrest.length_le (by simp)
  | cons q ps ih =>
    have hps' : ∀ q ∈ ps, 36 ∉ q := fun q hq => hps q (List.mem_cons_of_mem _ hq)
    have hmore := placeholders_le_followed hj hj9 hps' hvals
    rw [followed_filled hps hvals,placeholders,List.countP_cons,← placeholders] at hle
    obtain heq | hrest := List.suffix_cons_iff.mp hrest
    · obtain ⟨rfl,rfl⟩ := List.cons.inj heq
      by_contra hrun
      rw [if_pos ⟨hnone,hhead⟩,if_neg (by simpa using hrun)] at hle
      omega
    · refine ih hps' ?_ hrest
      by_cases hrun : q.takeWhile isDigit = decimal (j+1)
      · rw [if_pos ⟨nth_of_run hj hrun,head_of_run hj9 hrun _⟩,if_pos (by simpa using hrun)] at hle
        omega
      · rw [if_neg (show ¬decide (q.takeWhile isDigit = decimal (j+1)) = true by simpa using hrun)] at hle
        omega

lemma count_substituteParams {Stmt R : Type} (deps : Deps Stmt R) (params : List Datum) (vals : List Bytes)
    (sql : Bytes) (hlen : vals.length+params.length ≤ 9)
    (htexts : ∀ param ∈ params, 36 ∉ datumToText deps.lib param)
    (hsql : ∀ j, vals.length ≤ j → j < 9 → placeholders ps j ≤ followed (digit j) sql) :
    (substituteParams deps sql vals.length params).count 36+unfilled vals ps ≤
      sql.count 36+unfilled (vals++params.map (datumToText deps.lib)) ps := by
  induction params generalizing vals sql with
  | nil => simp [substituteParams]
  | cons param params ih =>
    rw [List.length_cons] at hlen
    obtain ⟨htext,htexts⟩ := List.forall_mem_cons.mp htexts
    have hk : vals.length < 9 := by omega
    have hold : placeholder (vals.length+1) = [36,digit vals.length] := by
      rw [placeholder,decimal_digit hk]
    have hcount := count_replaceAll (digit_ne hk) htext sql
    have hnext := ih (vals++[datumToText deps.lib param])
      (replaceAll [36,digit vals.length] (datumToText deps.lib param) 0 sql) (by simp; omega) htexts ?_
    · rw [List.length_append,List.length_singleton,List.append_assoc,List.singleton_append] at hnext
      rw [substituteParams,hold,unfilled_concat vals ps (datumToText deps.lib param),List.map_cons]
      have := hsql vals.length le_rfl hk
      omega
    · intro j hj hj9
      rw [List.length_append,List.length_singleton] at hj
      refine (hsql j (by omega) hj9).trans (followed_replaceAll (digit_ne hj9) (digit_ne hk) ?_ sql)
      intro heq
      have := digit_injective hj9 hk heq
      omega

/-- The condition for one more parameter. -/
lemma Apart.concat (h : Apart vals ps) (hk : vals.length < 9) (hps : ∀ q ∈ ps, 36 ∉ q)
    (hvals : ∀ v ∈ vals, 36 ∉ v)
    (hle : followed (digit vals.length) (ps.flatMap (filled vals)) ≤ placeholders ps vals.length) :
    Apart (vals++[v]) ps := by
  have hrun := @run_of_followed vals ps
  constructor
  · intro p hp i hi hbegins
    rw [List.length_append,List.length_singleton] at hi
    by_cases hlt : i < vals.length
    · exact h.runs p hp i hlt hbegins
    obtain rfl : i = vals.length := by omega
    obtain ⟨before,after,hsplit⟩ := List.append_of_mem hp
    have hhead : (p++after.flatMap (filled vals)).head? = some (digit vals.length) := by
      rw [decimal_digit hk] at hbegins
      obtain ⟨t,rfl⟩ := hbegins
      rfl
    cases hnth : nth vals (p.takeWhile isDigit) with
    | none => exact hrun le_rfl hk hps hvals hle ⟨before,hsplit.symm⟩ hnth hhead
    | some val =>
      obtain ⟨m,hm,hget⟩ := nth_eq_some.mp hnth
      have hlt := (List.getElem?_eq_some_iff.mp hget).1
      rw [head_of_run (by omega) hm] at hhead
      have := digit_injective (by omega) hk (Option.some.inj hhead)
      omega
  · intro i hi rest hrest hbegins
    rw [List.length_append,List.length_singleton] at hi
    by_cases hlt : i < vals.length
    · rw [List.take_append_of_le_length hlt.le] at hbegins
      exact h.dollars i hlt rest hrest hbegins
    obtain rfl : i = vals.length := by omega
    rw [List.take_left,decimal_digit hk] at hbegins
    obtain ⟨t,ht⟩ := hbegins
    have hnil : nth vals (([] : Bytes).takeWhile isDigit) = none := by
      rw [Option.eq_none_iff_forall_ne_some]
      intro val hval
      obtain ⟨m,hm,-⟩ := nth_eq_some.mp hval
      exact decimal_ne_nil _ hm.symm
    exact decimal_ne_nil _ (hrun le_rfl hk hps hvals hle hrest hnil (by rw [← ht]; rfl)).symm

lemma apart_of_eq {Stmt R : Type} (deps : Deps Stmt R) (params : List Datum) (vals : List Bytes)
    {head : Bytes}
    (hhead : 36 ∉ head) (hlen : vals.length+params.length ≤ 9) (hps : ∀ p ∈ ps, 36 ∉ p)
    (hvals : ∀ v ∈ vals, 36 ∉ v) (htexts : ∀ param ∈ params, 36 ∉ datumToText deps.lib param)
    (h : Apart vals ps) (heq : substituteParams deps (head++ps.flatMap (filled vals)) vals.length params =
      head++ps.flatMap (filled (vals++params.map (datumToText deps.lib)))) :
    Apart (vals++params.map (datumToText deps.lib)) ps := by
  induction params generalizing vals with
  | nil => simpa using h
  | cons param params ih =>
    rw [List.length_cons] at hlen
    obtain ⟨htext,htexts'⟩ := List.forall_mem_cons.mp htexts
    have hk : vals.length < 9 := by omega
    have hvals' : ∀ v ∈ vals++[datumToText deps.lib param], 36 ∉ v := by
      simpa [or_imp,forall_and] using ⟨hvals,htext⟩
    have hall : ∀ v ∈ vals++(param::params).map (datumToText deps.lib), 36 ∉ v := by
      simpa [or_imp,forall_and] using ⟨hvals,htext,htexts'⟩
    have hold : placeholder (vals.length+1) = [36,digit vals.length] := by
      rw [placeholder,decimal_digit hk]
    have hcount := count_replaceAll (digit_ne hk) htext (head++ps.flatMap (filled vals))
    have hconcat : vals++(param::params).map (datumToText deps.lib) =
        (vals++[datumToText deps.lib param])++params.map (datumToText deps.lib) := by simp
    have hle : followed (digit vals.length) (ps.flatMap (filled vals)) ≤ placeholders ps vals.length := by
      have hlater := @count_substituteParams ps _ _ deps params (vals++[datumToText deps.lib param])
        (replaceAll (placeholder (vals.length+1)) (datumToText deps.lib param) 0
          (head++ps.flatMap (filled vals))) (by simp; omega) htexts' ?_
      · rw [List.length_append,List.length_singleton,← substituteParams,heq,← hconcat,List.count_append,
          count_filled hps hall,hold] at hlater
        rw [followed_append hhead,List.count_append,count_filled hps hvals,
          unfilled_concat vals ps (datumToText deps.lib param)] at hcount
        omega
      · intro j hj hj9
        rw [List.length_append,List.length_singleton] at hj
        rw [hold]
        refine ((placeholders_le_followed (by omega) hj9 hps hvals).trans
          (le_followed_append head _)).trans
          (followed_replaceAll (digit_ne hj9) (digit_ne hk) ?_ _)
        intro h
        have := digit_injective hj9 hk h
        omega
    have happend := h.concat (v := datumToText deps.lib param) hk hps hvals hle
    rw [substituteParams,placeholder,replaceAll_append hhead,← placeholder,
      @replaceAll_filled vals [] ps _ (by simpa using happend) hps
        (fun p hp val => not_mem_of_nth hvals),hconcat] at heq
    rw [hconcat]
    exact ih _ (by simp; omega) hvals' htexts' happend (by simpa using heq)

lemma apart_of_substituted {Stmt R : Type} (deps : Deps Stmt R) (params : List Datum) (sql : Bytes)
    (hlen : params.length ≤ 9) (htexts : ∀ param ∈ params, 36 ∉ datumToText deps.lib param)
    (h : substituteParams deps sql 0 params = substitute (params.map (datumToText deps.lib)) 0 sql) :
    Apart (params.map (datumToText deps.lib)) (pieces sql) := by
  obtain ⟨head,hhead,hps,hsql,hfilled⟩ := exists_filled sql
  rw [hfilled] at h
  nth_rewrite 1 [hsql] at h
  exact apart_of_eq deps params [] hhead (by simpa using hlen) hps nofun htexts ⟨nofun,nofun⟩ h

end Count

section Literal
variable {lib : ServerLib} {text : Bytes}

/-- A number that is written back as it came: an integer in its shortest form, or one that is no
`int64` and that is read as the text or as a float that is printed so. -/
def Canonical (lib : ServerLib) (text : Bytes) : Prop :=
  isNumber text ∧ match lib.sscanInt text with
    | some i => text = decimalInt i
    | none => ∀ bits, lib.sscanFloat text = some bits → text = lib.formatFloat bits

lemma not_mem_of_isNumber (h : isNumber text = true) : 36 ∉ text := by
  intro hmem
  have hdigit : ∀ {b : Bytes}, 36 ∉ b.takeWhile isDigit :=
    fun hb => absurd (List.mem_takeWhile_imp hb) (by decide)
  simp only [isNumber,Bool.and_eq_true,Bool.or_eq_true,decide_eq_true_eq] at h
  have hrest : 36 ∈ if text.head? = some 45 then text.tail else text := by
    split_ifs with hsign
    · obtain ⟨rest,rfl⟩ := List.head?_eq_some_iff.mp hsign
      exact (List.mem_cons.mp hmem).resolve_left (by decide)
    · exact hmem
  generalize (if text.head? = some 45 then text.tail else text) = b at h hrest
  rw [← List.takeWhile_append_dropWhile (p := isDigit) (l := b),List.mem_append] at hrest
  have hrest := hrest.resolve_left hdigit
  obtain hnil | ⟨⟨hpoint,-⟩,hall⟩ := h.2
  · rw [List.isEmpty_iff.mp hnil] at hrest
    exact List.not_mem_nil hrest
  · obtain ⟨fraction,hfraction⟩ := List.head?_eq_some_iff.mp hpoint
    rw [hfraction] at hrest hall
    exact absurd (List.all_eq_true.mp hall _ ((List.mem_cons.mp hrest).resolve_left (by decide)))
      (by decide)

lemma unquote_length {s t : Bytes} (h : unquote s = some t) : t.length ≤ s.length := by
  fun_induction unquote s generalizing t with
  | case1 => simp_all
  | case2 => simp_all
  | case3 => simp_all
  | case4 s ih =>
    obtain ⟨t,ht,rfl⟩ := Option.map_eq_some_iff.mp h
    have := ih ht
    simp
    omega
  | case5 => cases h
  | case6 c d s hc ih =>
    obtain ⟨t,ht,rfl⟩ := Option.map_eq_some_iff.mp h
    have := ih ht
    simp at this ⊢
    omega

lemma denoted_self (h : denoted text = some text) : isNumber text = true := by
  rw [denoted] at h
  split_ifs at h with hnum hquote
  · exact hnum
  · obtain ⟨rest,rfl⟩ := List.head?_eq_some_iff.mp hquote.1
    have hlen := unquote_length h
    simp at hlen
    omega

lemma head_decimalInt (i : Int64) : (decimalInt i).head?≠some 39 := by
  intro h
  obtain ⟨rest,hrest⟩ := List.head?_eq_some_iff.mp h
  rw [decimalInt] at hrest
  split_ifs at hrest
  · cases hrest
  · exact absurd (isDigit_decimal (hrest ▸ List.mem_cons_self ..)) (by decide)

lemma denoted_iff {lit : Bytes} (hlit : lit.head?≠some 39 ∨ lit = text) :
    denoted lit = some text ↔ isNumber text = true ∧ text = lit := by
  constructor
  · intro h
    have heq : lit = text := by
      obtain hhead | heq := hlit
      · rw [denoted] at h
        split_ifs at h with hnum hquote
        · exact Option.some.inj h
        · exact absurd hquote.1 hhead
      · exact heq
    rw [heq] at h
    exact ⟨denoted_self h,heq.symm⟩
  · rintro ⟨hnum,rfl⟩
    rw [denoted,if_pos hnum]

lemma denotes_iff (hfloat : ∀ bits, (lib.formatFloat bits).head?≠some 39) (t : Option Bytes) :
    Denotes (boundText lib t) t ↔ ∃ text, t = some text ∧ Canonical lib text := by
  cases t with
  | none =>
    constructor
    · intro h
      exact absurd (show [] = ascii "NULL" from h) (by decide)
    · rintro ⟨text,h,-⟩
      cases h
  | some text =>
    simp only [Denotes,boundText,boundDatum,textToDatum,Canonical,Option.some.injEq,exists_eq_left']
    cases hint : lib.sscanInt text with
    | some i => exact denoted_iff (.inl (head_decimalInt i))
    | none =>
      cases hbits : lib.sscanFloat text with
      | some bits => simpa [datumToText] using denoted_iff (.inl (hfloat bits))
      | none => simpa [datumToText] using denoted_iff (.inr rfl)

lemma boundText_of_canonical (h : Canonical lib text) : boundText lib (some text) = text := by
  obtain ⟨-,hback⟩ := h
  simp only [boundText,boundDatum,textToDatum]
  cases hint : lib.sscanInt text with
  | some i =>
    rw [hint] at hback
    exact hback.symm
  | none =>
    rw [hint] at hback
    cases hbits : lib.sscanFloat text with
    | some bits => exact (hback bits hbits).symm
    | none => rfl

end Literal

/-- The text is the one with all placeholders replaced at once, each by a literal of its parameter. -/
structure Substituted (lib : ServerLib) (sql : Bytes) (texts : List (Option Bytes))
    (executed : Bytes) : Prop where
  once : executed = substitute (texts.map (boundText lib)) 0 sql
  literal : ∀ p ∈ pieces sql, ∀ t, nth texts (p.takeWhile isDigit) = some t → Denotes (boundText lib t) t

/-- The parameters that the text names are numbers that are written back as they came. -/
def Numeric (lib : ServerLib) (sql : Bytes) (texts : List (Option Bytes)) : Prop :=
  ∀ p ∈ pieces sql, ∀ t, nth texts (p.takeWhile isDigit) = some t → ∃ text, t = some text ∧
    Canonical lib text

lemma Substituted.of_apart {Stmt R : Type} {deps : Deps Stmt R}
    (hfloat : ∀ bits, (deps.lib.formatFloat bits).head?≠some 39) {sql : Bytes}
    {texts : List (Option Bytes)} (hapart : Apart (texts.map (boundText deps.lib)) (pieces sql))
    (hnum : Numeric deps.lib sql texts) :
    Substituted deps.lib sql texts (substituteParams deps sql 0 (texts.map (boundDatum deps.lib))) := by
  have hliteral : ∀ p ∈ pieces sql, ∀ t, nth texts (p.takeWhile isDigit) = some t →
    Denotes (boundText deps.lib t) t :=
    fun p hp t ht => (denotes_iff hfloat t).mpr (hnum p hp t ht)
  refine ⟨?_,hliteral⟩
  have hmap : (texts.map (boundDatum deps.lib)).map (datumToText deps.lib) =
    texts.map (boundText deps.lib) := List.map_map
  rw [← hmap]
  refine substituteParams_eq deps _ sql (hmap ▸ hapart) fun p hp val hval => ?_
  rw [hmap,nth_map] at hval
  obtain ⟨t,ht,rfl⟩ := Option.map_eq_some_iff.mp hval
  obtain ⟨text,rfl,hcanonical⟩ := hnum p hp t ht
  rw [boundText_of_canonical hcanonical]
  exact not_mem_of_isNumber hcanonical.1

/-- An Execute message runs the substituted text if the parameters are such numbers and no placeholder
is taken for another; that they are such numbers is needed in any case, and both are needed if there are
at most nine parameters and none has a `$`. -/
theorem parameters_substituted {Stmt R : Type} (deps : Deps Stmt R)
    (hfloat : ∀ bits, (deps.lib.formatFloat bits).head?≠some 39)
    (payload name : Bytes) (s : Session R) (portal : Portal) (plan : PreparedPlan)
    (texts : List (Option Bytes))
    (hname : (splitNull payload).head? = some name) (hportal : s.portals name = some portal)
    (hplan : s.statements portal.planName = some plan)
    (hparams : portal.parameters = texts.map (boundDatum deps.lib)) :
    ∃ executed, executed = substituteParams deps plan.sql 0 portal.parameters ∧
      handleExecute deps payload s = executeSQL deps executed s ∧
      (Apart (texts.map (boundText deps.lib)) (pieces plan.sql) →
        (Substituted deps.lib plan.sql texts executed ↔ Numeric deps.lib plan.sql texts)) ∧
      (Substituted deps.lib plan.sql texts executed → Numeric deps.lib plan.sql texts) ∧
      (texts.length ≤ 9 → (∀ t ∈ texts, 36 ∉ boundText deps.lib t) →
        (Substituted deps.lib plan.sql texts executed ↔ Numeric deps.lib plan.sql texts ∧
          Apart (texts.map (boundText deps.lib)) (pieces plan.sql))) := by
  have hneeded : ∀ executed, Substituted deps.lib plan.sql texts executed →
    Numeric deps.lib plan.sql texts :=
    fun executed h p hp t ht => (denotes_iff hfloat t).mp (h.literal p hp t ht)
  have hmap : (texts.map (boundDatum deps.lib)).map (datumToText deps.lib) =
    texts.map (boundText deps.lib) :=
    List.map_map
  rw [hparams]
  refine ⟨_,rfl,?_,fun hapart => ⟨hneeded _,Substituted.of_apart hfloat hapart⟩,hneeded _,
    fun hlen htexts => ⟨fun h => ⟨hneeded _ h,?_⟩,fun ⟨hnum,hapart⟩ =>
      Substituted.of_apart hfloat hapart hnum⟩⟩
  · obtain ⟨rest,hrest⟩ := List.head?_eq_some_iff.mp hname
    simp only [handleExecute,hrest,hportal,hplan,hparams]
  · rw [← hmap]
    refine apart_of_substituted deps _ plan.sql (by simpa using hlen) ?_ (hmap ▸ h.once)
    intro param hparam
    obtain ⟨t,ht,rfl⟩ := List.mem_map.mp hparam
    exact htexts t ht

/-- A session with one statement and one portal. -/
def prepared (sql : Bytes) (texts : List (Option Bytes)) : Session Unit :=
  ⟨fun _ => some ⟨[],sql,[]⟩,fun _ => some ⟨[],[],texts.map (boundDatum plainServerLib)⟩,(),[]⟩

def echoing : Deps Bytes Unit := answering ⟨none,0,ascii "OK"⟩

/-- A `$` in front of a placeholder does no harm if no parameter has the number that comes to stand
there. -/
theorem parameters_substituted_numbers :
    Substituted plainServerLib (ascii "SELECT a FROM t WHERE b = $1 AND c = $2") [some (ascii "5"),
      some (ascii "-7")]
      (ascii "SELECT a FROM t WHERE b = 5 AND c = -7") ∧
    Substituted plainServerLib (ascii "SELECT $$1") [some (ascii "5")] (ascii "SELECT $5") := by
  have hfloat : ∀ bits, (echoing.lib.formatFloat bits).head?≠some 39 := fun _ => by
    simp [echoing,answering,plainServerLib]
  have hfive : Canonical plainServerLib (ascii "5") :=
    ⟨by decide +kernel,show ascii "5" = decimalInt 5 by decide +kernel⟩
  have hseven : Canonical plainServerLib (ascii "-7") :=
    ⟨by decide +kernel,show ascii "-7" = decimalInt (-7) by decide +kernel⟩
  constructor
  · obtain ⟨executed,hexecuted,-,hiff,-,-⟩ := parameters_substituted echoing hfloat [0] []
      (prepared (ascii "SELECT a FROM t WHERE b = $1 AND c = $2") [some (ascii "5"),some (ascii "-7")]) _ _
      [some (ascii "5"),some (ascii "-7")] (by decide) rfl rfl rfl
    have htext : executed = ascii "SELECT a FROM t WHERE b = 5 AND c = -7" :=
      hexecuted.trans (by decide +kernel)
    have hfree : [] ∉ pieces (ascii "SELECT a FROM t WHERE b = $1 AND c = $2") := by decide +kernel
    rw [← htext]
    refine (hiff ⟨by decide +kernel,fun i hi rest hrest => ?_⟩).mpr fun p _ t ht => ?_
    · exact absurd (hrest.subset (List.mem_cons_self ..)) hfree
    · obtain ⟨i,-,hget⟩ := nth_eq_some.mp ht
      obtain rfl | rfl : t = some (ascii "5") ∨ t = some (ascii "-7") := by
        simpa using List.mem_of_getElem? hget
      exacts [⟨_,rfl,hfive⟩,⟨_,rfl,hseven⟩]
  · obtain ⟨executed,hexecuted,-,-,-,hiff⟩ := parameters_substituted echoing hfloat [0] []
      (prepared (ascii "SELECT $$1") [some (ascii "5")]) _ _ [some (ascii "5")] (by decide) rfl rfl rfl
    have htext : executed = ascii "SELECT $5" := hexecuted.trans (by decide +kernel)
    have hpieces : pieces (ascii "SELECT $$1") = [[],ascii "1"] := by decide +kernel
    rw [← htext]
    refine (hiff (by decide) (by decide +kernel)).mpr ⟨fun p _ t ht =>
      ?_,by decide +kernel,fun i hi rest hrest => ?_⟩
    · obtain ⟨i,-,hget⟩ := nth_eq_some.mp ht
      obtain rfl : t = some (ascii "5") := by simpa using List.mem_of_getElem? hget
      exact ⟨_,rfl,hfive⟩
    · obtain rfl : i = 0 := by simpa using hi
      obtain heq | hrest := List.suffix_cons_iff.mp (hpieces ▸ hrest)
      · obtain ⟨-,rfl⟩ := List.cons.inj heq
        decide +kernel
      · exact absurd (hrest.subset (List.mem_cons_self ..)) (by decide)

/-- A statement, its parameters and what is executed: a text becomes part of the statement, what
follows a number is dropped, a null becomes nothing, and `$10` is taken for `$1` and a zero. -/
def changed : List (Bytes × List (Option Bytes) × Bytes) :=
  [(ascii "SELECT a FROM t WHERE b = $1",[some (ascii "c OR 1=1")],
    ascii "SELECT a FROM t WHERE b = c OR 1=1"),
    (ascii "SELECT a FROM t WHERE b = $1",[some (ascii "42abc")],ascii "SELECT a FROM t WHERE b = 42"),
    (ascii "SELECT a FROM t WHERE b = $1",[none],ascii "SELECT a FROM t WHERE b = "),
    (ascii "SELECT a FROM t WHERE b = $10",(List.range 10).map fun i =>
      some (decimal (i+5)),ascii "SELECT a FROM t WHERE b = 50")]

theorem parameters_change_statement : changed.Forall fun c =>
    handleExecute echoing [0] (prepared c.1 c.2.1) = executeSQL echoing c.2.2 (prepared c.1 c.2.1) ∧
      ¬ Substituted plainServerLib c.1 c.2.1 c.2.2 := by
  have hexecuted : ∀ c ∈ changed, substituteParams echoing c.1 0
    (c.2.1.map (boundDatum plainServerLib)) = c.2.2 := by decide +kernel
  refine List.forall_iff_forall_mem.mpr fun c hc => ?_
  refine ⟨congrArg (executeSQL echoing · (prepared c.1 c.2.1)) (hexecuted c hc),fun h => ?_⟩
  have hliteral : ∀ t, c.2.1 = [t] → pieces c.1 = [ascii "1"] →
    Denotes (boundText plainServerLib t) t := by
    intro t ht hp
    refine h.literal (ascii "1") (by simp [hp]) t ?_
    rw [ht]
    rfl
  simp only [changed,List.mem_cons,List.not_mem_nil,or_false] at hc
  obtain rfl | rfl | rfl | rfl := hc
  · exact absurd (hliteral _ rfl (by decide +kernel)) (show denoted _≠some _ by decide +kernel)
  · exact absurd (hliteral _ rfl (by decide +kernel)) (show denoted _≠some _ by decide +kernel)
  · exact absurd (hliteral none rfl (by decide +kernel))
      (show boundText plainServerLib none≠ascii "NULL" by decide +kernel)
  · exact absurd h.once (by decide +kernel)

end Plomvix.Server
