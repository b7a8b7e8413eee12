import Plomvix.Engine.Sanitize

/-! What the redaction of a text tells of its literals. -/
namespace Plomvix.Engine.Redaction
open Lib

/-- What a string literal is made of: a quote in it is escaped or doubled. -/
inductive Inner
  | plain (c : UInt8)
  | escaped (c : UInt8)
  | doubled
  deriving DecidableEq

def Inner.text (quote : UInt8) : Inner → Bytes
  | plain c => [c]
  | escaped c => [92,c]
  | doubled => [quote,quote]

/-- The exponent of a number, well formed. -/
structure Exponent where
  mark : UInt8
  sign : Option UInt8
  first : UInt8
  more : Bytes
  hmark : mark = 101 ∨ mark = 69
  hsign : ∀ c ∈ sign, c = 43 ∨ c = 45
  hfirst : isDigit first
  hmore : ∀ c ∈ more, isDigit c

/-- A number begins with a digit, or with its point. -/
inductive Number
  | decimal (first : UInt8) (more : Bytes) (exponent : Option Exponent) (hfirst : isDigit first)
      (hmore : ∀ c ∈ more, isDigit c || c == 46)
  | point (first : UInt8) (more : Bytes) (exponent : Option Exponent) (hfirst : isDigit first)
      (hmore : ∀ c ∈ more, isDigit c)
  | hex (mark : UInt8) (digits : Bytes) (hmark : mark = 120 ∨
      mark = 88) (hdigits : ∀ c ∈ digits, isHexDigit c)

/-- A number with the minus that stands before it, if there is one. -/
inductive Literal
  | str (quote : UInt8) (body : List Inner) (hquote : quote = 39 ∨
      quote = 34) (hbody : ∀ c, .plain c ∈ body → c≠quote ∧ c≠92)
  | num (minus : Bool) (n : Number)

def Exponent.text (e : Exponent) : Bytes := e.mark::(e.sign.toList++e.first::e.more)

def Number.text : Number → Bytes
  | decimal d more e _ _ => d::(more++e.elim [] Exponent.text)
  | point d more e _ _ => 46::d::(more++e.elim [] Exponent.text)
  | hex m digits _ _ => 48::m::digits

/-- The literal as it is written. -/
def Literal.text : Literal → Bytes
  | str q body _ _ => q::(body.flatMap (Inner.text q)++[q])
  | num minus n => (if minus then [45] else [])++n.text

/-- A minus before a number is taken for its sign. -/
def swallows (l : Option UInt8) : Bool := l.all fun c => !isIdentChar c && c != 41

def Exponent.shown (e : Exponent) : Bytes :=
  match e.sign with
  | none => e.mark::e.first::e.more
  | some c => [e.mark,c,63]

def Number.shown : Number → Bytes
  | decimal _ _ e _ _ => 63::e.elim [] Exponent.shown
  | point _ _ e _ _ => 46::63::e.elim [] Exponent.shown
  | hex .. => [63]

/-- What is shown of a number after a minus that is taken for its sign, if it begins with a digit. -/
def Number.leak : Number → Option Bytes
  | decimal _ _ e _ _ => some (e.elim [] Exponent.shown)
  | point .. => none
  | hex m digits _ _ => some (m::digits)

def Number.signed (n : Number) (taken : Bool) : Bytes :=
  if n.leak.isSome ∧ taken then 63::n.leak.getD [] else 45::n.shown

/-- What is shown of a literal after the byte `l`. -/
def Literal.shown (l : Option UInt8) : Literal → Bytes
  | str _ body _ _ => List.replicate (body.count .doubled+1) 63
  | num false n => n.shown
  | num true n => n.signed (swallows l)

/-- The last byte. -/
def after (l : Option UInt8) (b : Bytes) : Option UInt8 := b.foldl (fun _ c => some c) l

def joinsNumber (c : UInt8) : Bool := isIdentChar c || c == 46

def Free (r : Bytes) : Prop := ∀ c ∈ r.head?, ¬joinsNumber c

def inside : RedactMode → UInt8 → Bool
  | .number,c => isDigit c || c == 46
  | .hex,c => isHexDigit c
  | _,_ => false

section Scan
variable {l : Option UInt8} {r : Bytes} {m : RedactMode}

lemma after_nil (l : Option UInt8) : after l [] = l := rfl

lemma after_append (l : Option UInt8) (a b : Bytes) : after l (a++b) = after (after l a) b :=
  List.foldl_append ..

lemma joinsNumber_inside {c : UInt8} (h : inside m c) : joinsNumber c := by
  cases m with
  | number | hex =>
    revert c
    decide +kernel
  | _ => cases h

lemma digit_class {c : UInt8} (h : isDigit c) : isHexDigit c ∧ isIdentChar c ∧ c≠39 ∧ c≠34 ∧ c≠120 ∧
      c≠88 := by
  revert c
  decide +kernel

lemma hexDigit_class {c : UInt8} (h : isHexDigit c) : isIdentChar c ∧ c≠39 ∧ c≠34 ∧ c≠45 ∧ c≠120 ∧
      c≠88 := by
  revert c
  decide +kernel

lemma redactFrom_code (l : Option UInt8) (c : UInt8) (r : Bytes) :
    redactFrom .code l (c::r) = (redactCode l c r.head?).1::redactFrom (redactCode l c r.head?).2
      (some c) r := rfl

lemma redactFrom_cons (hm : m = .number ∨ m = .hex) (l : Option UInt8) (c : UInt8) (r : Bytes) :
    redactFrom m l (c::r) = if inside m c then redactFrom m (some c) r else redactFrom .code l (c::r) := by
  obtain rfl | rfl := hm <;> rw [redactFrom,redactFrom_code] <;> rfl

lemma redactFrom_leave (hm : m = .number ∨ m = .hex) (hr : Free r) :
    redactFrom m l r = redactFrom .code l r := by
  obtain _ | ⟨c,r⟩ := r
  · simp [redactFrom]
  · rw [redactFrom_cons hm,if_neg fun h => hr c rfl (joinsNumber_inside h)]

lemma redactFrom_inside (hm : m = .number ∨ m = .hex) {w : Bytes} (hw : ∀ c ∈ w, inside m c) :
    redactFrom m l (w++r) = redactFrom m (after l w) r := by
  induction w generalizing l with
  | nil => rfl
  | cons c w ih =>
    obtain ⟨hc,hw⟩ := List.forall_mem_cons.mp hw
    rw [List.cons_append,redactFrom_cons hm,if_pos hc]
    exact ih hw

def Unmarked (r : Bytes) : Prop := ∀ c ∈ r.head?, c≠120 ∧ c≠88

lemma Unmarked.append {w : Bytes} (hw : ∀ c ∈ w, c≠120 ∧ c≠88) (hr : Unmarked r) : Unmarked (w++r) := by
  cases w with
  | nil => exact hr
  | cons c w => simpa [Unmarked] using hw c List.mem_cons_self

lemma Unmarked.not_hex (hr : Unmarked r) (c : UInt8) :
    ¬(c = 48 ∧ (r.head? = some 120 ∨ r.head? = some 88)) := by
  rintro ⟨-,h | h⟩
  exacts [(hr _ h).1 rfl,(hr _ h).2 rfl]

lemma redactFrom_digit {c : UInt8} (hc : isDigit c) (hl : ¬l.any isIdentChar) (hr : Unmarked r) :
    redactFrom .code l (c::r) = 63::redactFrom .number (some c) r := by
  obtain ⟨-,-,h39,h34,-⟩ := digit_class hc
  rw [redactFrom_code,redactCode,if_neg (by simp [h39,h34]),if_pos hc,if_neg (hr.not_hex c),if_neg hl]

lemma redactFrom_plain {c : UInt8} (hc : ¬isDigit c ∧ c≠39 ∧ c≠34)
    (hm : ¬(c = 45 ∧ r.head?.any isDigit ∧ swallows l)) :
    redactFrom .code l (c::r) = c::redactFrom .code (some c) r := by
  obtain ⟨hd,h39,h34⟩ := hc
  rw [swallows] at hm
  rw [redactFrom_code,redactCode,if_neg (by simp [h39,h34]),if_neg hd,if_neg hm]

lemma redactFrom_word {w : Bytes} (hw : ∀ c ∈ w, isHexDigit c) (hl : l.any isIdentChar) (hr : Unmarked r) :
    redactFrom .code l (w++r) = w++redactFrom .code (after l w) r := by
  induction w generalizing l with
  | nil => rfl
  | cons c w ih =>
    obtain ⟨hc,hw⟩ := List.forall_mem_cons.mp hw
    obtain ⟨hident,h39,h34,h45,-⟩ := hexDigit_class hc
    have hunmarked : Unmarked (w++r) := hr.append fun d hd => (hexDigit_class (hw d hd)).2.2.2.2
    have hstep : redactFrom .code l (c::(w++r)) = c::redactFrom .code (some c) (w++r) := by
      by_cases hd : isDigit c
      · rw [redactFrom_code,redactCode,if_neg (by simp [h39,h34]),if_pos hd,
          if_neg (hunmarked.not_hex c),if_pos hl]
      · exact redactFrom_plain ⟨hd,h39,h34⟩ (by simp [h45])
    rw [List.cons_append,hstep,ih (l := some c) hw hident]
    rfl

lemma Free.unmarked (hr : Free r) : Unmarked r := by
  refine fun c hc => ⟨?_,?_⟩ <;> rintro rfl <;> exact hr _ hc rfl

lemma redactFrom_letter {c : UInt8} {w : Bytes} (hc : c = 101 ∨ c = 69 ∨ c = 120 ∨ c = 88) :
    redactFrom .number l (c::w) = c::redactFrom .code (some c) w ∧
      (Free r → (∀ d ∈ w, isHexDigit d) →
        redactFrom .number l (c::(w++r)) = c::(w++redactFrom .code (after (some c) w) r)) := by
  have hclass : ¬inside .number c ∧ (¬isDigit c ∧ c≠39 ∧ c≠34) ∧ c≠45 ∧ isIdentChar c := by
    obtain rfl | rfl | rfl | rfl := hc <;> decide
  obtain ⟨hout,hplain,h45,hident⟩ := hclass
  have hletter (b : Bytes) : redactFrom .number l (c::b) = c::redactFrom .code (some c) b := by
    rw [redactFrom_cons (.inl rfl),if_neg hout,redactFrom_plain hplain (by simp [h45])]
  exact ⟨hletter w,fun hr hw => by rw [hletter,redactFrom_word (l := some c) hw hident hr.unmarked]⟩

lemma Exponent.run (e : Exponent) (hr : Free r) :
    redactFrom .number l (e.text++r) = e.shown++redactFrom .code (after l e.text) r := by
  obtain ⟨mark,sign,first,more,hmark,hsign,hfirst,hmore⟩ := e
  have hletter : mark = 101 ∨ mark = 69 ∨ mark = 120 ∨ mark = 88 := hmark.imp_right .inl
  cases sign with
  | none =>
    refine (redactFrom_letter (w := first::more) hletter).2 hr fun c hc => ?_
    obtain rfl | hc := List.mem_cons.mp hc
    exacts [(digit_class hfirst).1,(digit_class (hmore c hc)).1]
  | some c =>
    have hmarkIdent : isIdentChar mark := by obtain rfl | rfl := hmark <;> decide
    have hclass : (¬isDigit c ∧ c≠39 ∧ c≠34) ∧ ¬isIdentChar c := by
      obtain rfl | rfl := hsign c rfl <;> decide
    have hunmarked : Unmarked (more++r) :=
      hr.unmarked.append fun d hd => (digit_class (hmore d hd)).2.2.2.2
    have hsigned : redactFrom .code (some mark) (c::first::(more++r)) =
      c::redactFrom .code (some c) (first::(more++r)) :=
      redactFrom_plain hclass.1 (by simp [swallows,hmarkIdent])
    refine (redactFrom_letter hletter (r := r)).1.trans
      (congrArg (mark::·) (hsigned.trans (congrArg (c::·) ?_)))
    rw [redactFrom_digit hfirst (by simpa using hclass.2) hunmarked,
      redactFrom_inside (.inl rfl) (by simp_all [inside]),
      redactFrom_leave (.inl rfl) hr]
    rfl

lemma exponent_run (e : Option Exponent) (hr : Free r) :
    redactFrom .number l (e.elim [] Exponent.text++r) =
      e.elim [] Exponent.shown++redactFrom .code (after l (e.elim [] Exponent.text)) r := by
  cases e with
  | none => exact redactFrom_leave (.inl rfl) hr
  | some e => exact e.run hr

lemma exponent_unmarked (e : Option Exponent) (hr : Free r) : Unmarked (e.elim [] Exponent.text++r) := by
  cases e with
  | none => exact hr.unmarked
  | some e =>
    have hmark : e.mark≠120 ∧ e.mark≠88 := by obtain h | h := e.hmark <;> rw [h] <;> decide
    simpa [Unmarked,Exponent.text] using hmark

lemma mantissa_run {d : UInt8} {more : Bytes} (e : Option Exponent) (hd : isDigit d)
    (hmore : ∀ c ∈ more, isDigit c || c == 46)
    (hl : ¬l.any isIdentChar) (hr : Free r) :
    redactFrom .code l (d::(more++e.elim [] Exponent.text)++r) =
      63::e.elim [] Exponent.shown++redactFrom .code (after l (d::(more++e.elim [] Exponent.text))) r := by
  have hclass : ∀ c : UInt8, isDigit c || c == 46 → c≠120 ∧ c≠88 := by decide +kernel
  have hunmarked := (exponent_unmarked e hr).append fun c hc => hclass c (hmore c hc)
  rw [List.cons_append,List.append_assoc,redactFrom_digit hd hl hunmarked,
    redactFrom_inside (.inl rfl) hmore,exponent_run e hr,← after_append]
  rfl

lemma Number.run (n : Number) (hl : ¬l.any isIdentChar) (hr : Free r) :
    redactFrom .code l (n.text++r) = n.shown++redactFrom .code (after l n.text) r := by
  cases n with
  | decimal d more e hd hmore => exact mantissa_run e hd hmore hl hr
  | point d more e hd hmore =>
    have hpoint (b : Bytes) : redactFrom .code l (46::b) = 46::redactFrom .code (some 46) b :=
      redactFrom_plain (by decide) (by simp)
    exact (hpoint _).trans (congrArg (46::·) (mantissa_run e hd (fun c hc => by
      simp [hmore c hc]) (by decide) hr))
  | hex m digits hm hdigits =>
    have hmark : redactFrom .code l (48::m::(digits++r)) = 63::redactFrom .hex (some m) (digits++r) := by
      rw [redactFrom_code,redactCode,if_neg (by decide),if_pos (by decide),
        if_pos ⟨rfl,by simpa using hm⟩,redactFrom]
    refine hmark.trans (congrArg (63::·) ?_)
    rw [redactFrom_inside (.inr rfl) hdigits,redactFrom_leave (.inr rfl) hr]
    rfl

lemma Number.run_signed {n : Number} {b : Bytes} (hn : n.leak = some b) (hr : Free r) :
    redactFrom .number l (n.text++r) = b++redactFrom .code (after l n.text) r := by
  cases n with
  | decimal d more e hd hmore =>
    cases hn
    have hw (c : UInt8) (hc : c ∈ d::more) : isDigit c || c == 46 := by
      obtain rfl | hc := List.mem_cons.mp hc
      · simp [hd]
      · exact hmore c hc
    rw [Number.text,← List.cons_append,List.append_assoc,redactFrom_inside (.inl rfl) hw,
      exponent_run e hr,← after_append]
  | point d more e hd hmore => cases hn
  | hex m digits hm hdigits =>
    cases hn
    exact (redactFrom_letter (l := some 48) (.inr (.inr hm))).2 hr hdigits

lemma body_run {q : UInt8} {body : List Inner} (hq : q = 39 ∨ q = 34)
    (hbody : ∀ c, .plain c ∈ body → c≠q ∧ c≠92) :
    redactFrom (.quoted q) l (body.flatMap (Inner.text q)++q::r) =
      List.replicate (body.count .doubled) 63++redactFrom .code (some q) r := by
  have h92 : q≠92 := by obtain rfl | rfl := hq <;> decide
  induction body generalizing l with
  | nil =>
    rw [List.flatMap_nil,List.nil_append,redactFrom,if_neg (by simp [h92]),if_pos rfl]
    rfl
  | cons x body ih =>
    have ih {l : Option UInt8} := ih (l := l) fun c hc => hbody c (List.mem_cons_of_mem _ hc)
    rw [List.flatMap_cons,List.append_assoc]
    cases x with
    | plain c =>
      obtain ⟨hc,hslash⟩ := hbody c List.mem_cons_self
      rw [Inner.text,List.singleton_append,redactFrom,if_neg (by simp [hslash]),if_neg hc,ih,
        List.count_cons_of_ne (by simp)]
    | escaped c =>
      rw [List.count_cons_of_ne (by simp),← ih (l := some c)]
      rfl
    | doubled =>
      have hopen (b : Bytes) : redactFrom .code (some q) (q::b) =
        63::redactFrom (.quoted q) (some q) b := by
        rw [redactFrom_code,redactCode,if_pos hq]
      rw [Inner.text,List.cons_append,redactFrom,if_neg (by simp [h92]),if_pos rfl,
        List.singleton_append,hopen,ih,List.count_cons_self,
        List.replicate_succ]
      rfl

lemma isDigit_head (n : Number) (r : Bytes) : (n.text++r).head?.any isDigit = n.leak.isSome := by
  cases n with
  | decimal d more e hd => simp [Number.text,Number.leak,hd]
  | point => rfl
  | hex => rfl

lemma Literal.run (lit : Literal) (hl : ∀ n, lit = .num false n → ¬l.any isIdentChar)
    (hr : ∀ m n, lit = .num m n → Free r) :
    redactFrom .code l (lit.text++r) = lit.shown l++redactFrom .code (after l lit.text) r := by
  cases lit with
  | str q body hq hbody =>
    rw [Literal.text,List.cons_append,List.append_assoc,redactFrom_code,redactCode,if_pos hq,
      List.singleton_append,body_run hq hbody,
      Literal.shown,List.replicate_succ]
    congr 2
    simp [after]
  | num minus n =>
    have hclear := hr minus n rfl
    cases minus with
    | false => exact n.run (hl n rfl) hclear
    | true =>
      change redactFrom .code l (45::(n.text++r)) = _
      rw [Literal.shown,Number.signed]
      split_ifs with hsign
      · obtain ⟨b,hleak⟩ := Option.isSome_iff_exists.mp hsign.1
        have htaken : (45:UInt8) = 45 ∧ (n.text++r).head?.any isDigit ∧ swallows l :=
          ⟨rfl,by rw [isDigit_head]; exact hsign.1,hsign.2⟩
        rw [swallows] at htaken
        rw [redactFrom_code,redactCode,if_neg (by decide),if_neg (by decide),if_pos htaken,
          n.run_signed hleak hclear,hleak]
        rfl
      · rw [redactFrom_plain (by decide) (by rw [isDigit_head]; simpa using hsign),
          n.run (l := some 45) (by decide) hclear]
        rfl

/-- What follows does not go on with a number that ends in the byte, nor begin one after it. -/
def Ready (c : UInt8) (r : Bytes) : Prop :=
  ∀ d ∈ r.head?, (joinsNumber c → ¬joinsNumber d) ∧ (c = 45 → ¬isDigit d)

def Outside (m : RedactMode) (c : UInt8) : Prop :=
  m = .code ∨ (m = .number ∨ m = .hex) ∨ m = .hexMark ∧ (c = 120 ∨ c = 88)

lemma last_byte {c : UInt8} (hm : Outside m c) (hc : c≠39 ∧ c≠34) :
    ∃ out, ∀ r, Ready c r → redactFrom m l (c::r) = out++redactFrom .code (some c) r := by
  have hleave {m : RedactMode} (hm : m = .number ∨
    m = .hex) (hjoins : joinsNumber c) (r : Bytes) (hr : Ready c r) :
      redactFrom m (some c) r = redactFrom .code (some c) r :=
        redactFrom_leave hm fun d hd => (hr d hd).1 hjoins
  have hcode : ∃ out, ∀ r, Ready c r → redactFrom .code l (c::r) = out++redactFrom .code (some c) r := by
    by_cases hd : isDigit c
    · have hjoins : joinsNumber c := by simp [joinsNumber,(digit_class hd).2.1]
      have hunmarked (r : Bytes) (hr : Ready c r) : Unmarked r :=
        Free.unmarked fun d hd => (hr d hd).1 hjoins
      by_cases hl : l.any isIdentChar
      · exact ⟨[c],fun r hr =>
          redactFrom_word (w := [c]) (by simp [(digit_class hd).1]) hl (hunmarked r hr)⟩
      · exact ⟨[63],fun r hr => (redactFrom_digit hd hl (hunmarked r hr)).trans
          (congrArg (63::·) (hleave (.inl rfl) hjoins r hr))⟩
    · refine ⟨[c],fun r hr => redactFrom_plain ⟨hd,hc⟩ ?_⟩
      rintro ⟨h45,hdigit,-⟩
      obtain ⟨d,hd,hdigit⟩ := (Option.any_eq_true ..).mp hdigit
      exact (hr d hd).2 h45 hdigit
  obtain rfl | hm | ⟨rfl,hmark⟩ := hm
  · exact hcode
  · by_cases hin : inside m c
    · exact ⟨[],fun r hr => by
        rw [redactFrom_cons hm,if_pos hin,hleave hm (joinsNumber_inside hin) r hr]; rfl⟩
    · simpa only [redactFrom_cons hm,if_neg hin] using hcode
  · have hjoins : joinsNumber c := by obtain rfl | rfl := hmark <;> decide
    exact ⟨[],hleave (.inr rfl) hjoins⟩

lemma next_byte {c : UInt8} (d : UInt8) (hm : Outside m c) (hc : c≠39 ∧ c≠34) :
    ∃ out m', Outside m' d ∧ ∀ r, redactFrom m l (c::d::r) = out++redactFrom m' (some c) (d::r) := by
  have hcode : ∃ out m', Outside m' d ∧
    ∀ r, redactFrom .code l (c::d::r) = out++redactFrom m' (some c) (d::r) := by
    refine ⟨[(redactCode l c (some d)).1],(redactCode l c (some d)).2,?_,fun r => rfl⟩
    rw [redactCode,if_neg (by simp [hc])]
    split_ifs with h1 h2 <;> simp_all [Outside]
  obtain rfl | hm | ⟨rfl,-⟩ := hm
  · exact hcode
  · by_cases hin : inside m c
    · exact ⟨[],m,.inr (.inl hm),fun r => by rw [redactFrom_cons hm,if_pos hin]; rfl⟩
    · simpa only [redactFrom_cons hm,if_neg hin] using hcode
  · exact ⟨[],.hex,.inr (.inl (.inr rfl)),fun _ => rfl⟩

lemma stretch_run {c : UInt8} {u : Bytes} (hm : Outside m c) (hu : ∀ d ∈ c::u, d≠39 ∧ d≠34) :
    ∃ out, ∀ r, (∀ d ∈ after (some c) u, Ready d r) →
      redactFrom m l (c::u++r) = out++redactFrom .code (after (some c) u) r := by
  induction u generalizing m l c with
  | nil =>
    obtain ⟨out,hout⟩ := last_byte (l := l) hm (hu c List.mem_cons_self)
    exact ⟨out,fun r hr => hout r (hr c rfl)⟩
  | cons d u ih =>
    obtain ⟨out,m',hm',hout⟩ := next_byte (l := l) d hm (hu c List.mem_cons_self)
    obtain ⟨out',hout'⟩ := ih (l := some c) hm' fun e he => hu e (List.mem_cons_of_mem _ he)
    refine ⟨out++out',fun r hr => ?_⟩
    have hrest := hout' r hr
    exact (hout (u++r)).trans ((congrArg (out++·) hrest).trans (List.append_assoc ..).symm)

end Scan

/-- A stretch of the text without literals, and the literal after it. -/
structure Item where
  before : Bytes
  lit : Literal

/-- The text made of the items and an end. -/
def render : List Item → Bytes → Bytes
  | [],u => u
  | i::is,u => i.before++(i.lit.text++render is u)

/-- An empty string or zero. -/
def Literal.canon : Literal → Literal
  | str q _ hq _ => .str q [] hq (by simp)
  | num minus _ => .num minus (.decimal 48 [] none (by decide) (by simp))

/-- The item with its literal blanked. -/
def Item.canon (i : Item) : Item := ⟨i.before,i.lit.canon⟩

/-- After a number there is no word, no point, and no number that is not one of the literals. -/
def Clear (prev : Option Literal) (u : Bytes) : Prop :=
  ∀ m n, prev = some (.num m n) → Free u ∧ ¬(u.head? = some 45 ∧ u.tail.head?.any isDigit)

/-- Two literals with nothing between them stay two. -/
def Adjacent : Option Literal → Literal → Prop
  | some (.str q _ _ _),.str q' _ _ _ => q≠q'
  | some (.num _ _),.num false _ => False
  | _,_ => True

/-- The literal is a token of its own. -/
def Item.Fits (prev : Option Literal) (i : Item) : Prop :=
  Clear prev i.before ∧ (∀ n, i.lit = .num false n → ∀ c ∈ after none i.before, ¬joinsNumber c ∧
    c≠45) ∧ (i.before = [] → Adjacent prev i.lit)

/-- The literals of the text are those of the items. -/
def Marked : Option Literal → List Item → Bytes → Prop
  | prev,[],u => Clear prev u
  | prev,i::is,u => i.Fits prev ∧ Marked (some i.lit) is u

/-- There are no quotes in names and comments. -/
def Quiet (is : List Item) (u : Bytes) : Prop :=
  (∀ i ∈ is, ∀ c ∈ i.before, c≠39 ∧ c≠34) ∧ ∀ c ∈ u, c≠39 ∧ c≠34

def Number.simple : Number → Bool
  | decimal _ _ e _ _ => e.isNone
  | point .. => false
  | hex .. => true

def Number.isHex : Number → Bool
  | hex .. => true
  | _ => false

def prevByte (prev : Option Literal) : Option UInt8 := prev.bind fun lit => after none lit.text

def Item.byteBefore (prev : Option Literal) (i : Item) : Option UInt8 := after (prevByte prev) i.before

/-- The item is right after a number that ends in its point. -/
def Dotted (prev : Option Literal) (i : Item) : Prop :=
  i.before = [] ∧ (∃ m n, prev = some (.num m n)) ∧ swallows (prevByte prev)

/-- A string has no doubled quotes, a number no exponent and no point at its beginning; after a
minus that is taken for its sign it is not hexadecimal, and the minus is not right after a number
that ends in its point. -/
def Item.Plain (prev : Option Literal) (i : Item) : Prop :=
  match i.lit with
  | .str _ body _ _ => .doubled ∉ body
  | .num minus n => n.simple ∧ (minus → (n.isHex → ¬swallows (i.byteBefore prev)) ∧ ¬Dotted prev i)

/-- Every literal is plain where it stands. -/
def Plain : Option Literal → List Item → Prop
  | _,[] => True
  | prev,i::is => i.Plain prev ∧ Plain (some i.lit) is

/-- The measure by which a literal that is not plain shows more. -/
def weight (b : Bytes) : ℤ := (b.map fun c => if c = 45 then -1 else 2).sum

/-- What is shown is the same if the literals are plain, and more if they are not. -/
def Tells (plain : Prop) (a b : Bytes) : Prop := plain ∧ a = b ∨ ¬plain ∧ weight b < weight a

section Compare
variable {prev : Option Literal} {i : Item} {is : List Item} {u : Bytes}

lemma weight_append (a b : Bytes) : weight (a++b) = weight a+weight b := by simp [weight]

lemma Tells.append {p q : Prop} {a b c d : Bytes} (h : Tells p a b) (h' : Tells q c d) :
    Tells (p ∧ q) (a++c) (b++d) := by
  unfold Tells at *
  rw [weight_append,weight_append]
  obtain ⟨hp,rfl⟩ | ⟨hp,hlt⟩ := h
  · obtain ⟨hq,rfl⟩ | ⟨hq,hlt⟩ := h'
    · exact .inl ⟨⟨hp,hq⟩,rfl⟩
    · exact .inr ⟨fun h => hq h.2,by omega⟩
  · obtain ⟨-,rfl⟩ | ⟨-,hlt'⟩ := h' <;> exact .inr ⟨fun h => hp h.1,by omega⟩

lemma Tells.prepend {p : Prop} {a b : Bytes} (out : Bytes) (h : Tells p a b) :
    Tells p (out++a) (out++b) := by
  simpa using Tells.append (.inl ⟨trivial,rfl⟩ : Tells True out out) h

lemma weight_nil : weight [] = 0 := rfl

lemma weight_cons (c : UInt8) (b : Bytes) :
    weight (c::b) = (if c = 45 then -1 else 2)+weight b := by simp [weight]

lemma weight_eq {b : Bytes} (h : ∀ c ∈ b, c≠45) : weight b = 2*b.length := by
  induction b with
  | nil => rfl
  | cons c b ih =>
    obtain ⟨hc,hb⟩ := List.forall_mem_cons.mp h
    rw [weight_cons,if_neg hc,ih hb,List.length_cons]
    push_cast
    ring

lemma weight_exponent (e : Exponent) : 3 ≤ weight e.shown := by
  obtain ⟨mark,sign,first,more,hmark,hsign,hfirst,hmore⟩ := e
  have h45 : mark≠45 := by obtain rfl | rfl := hmark <;> decide
  cases sign with
  | none =>
    have hdigits (c : UInt8) (hc : c ∈ first::more) : c≠45 := by
      obtain rfl | hc := List.mem_cons.mp hc
      exacts [(hexDigit_class (digit_class hfirst).1).2.2.2.1,
        (hexDigit_class (digit_class (hmore c hc)).1).2.2.2.1]
    simp only [Exponent.shown,weight_cons mark,if_neg h45,weight_eq hdigits,List.length_cons]
    push_cast
    omega
  | some c =>
    simp only [Exponent.shown,weight_cons,weight_nil,if_neg h45]
    split_ifs <;> simp_all

lemma weight_elim (e : Option Exponent) : 0 ≤ weight (e.elim [] Exponent.shown) := by
  cases e with
  | none => exact le_rfl
  | some e => exact (by decide : (0:ℤ) ≤ 3).trans (weight_exponent e)

lemma after_of_ne_nil {b : Bytes} (hb : b≠[]) (l l' : Option UInt8) : after l b = after l' b := by
  obtain ⟨c,b,rfl⟩ := List.exists_cons_of_ne_nil hb
  rfl

lemma prevByte_canon (hprev : ∀ m n, prev≠some (.num m n)) :
    prevByte (prev.map Literal.canon) = prevByte prev := by
  cases prev with
  | none => rfl
  | some lit =>
    cases lit with
    | str q body hq hbody => simp [prevByte,Literal.canon,Literal.text,after]
    | num m n => exact absurd rfl (hprev m n)

lemma swallows_canon (prev : Option Literal) (i : Item) :
    Dotted prev i ∧ swallows (i.byteBefore prev) ∧ ¬swallows (i.byteBefore (prev.map Literal.canon)) ∨
    ¬Dotted prev i ∧ swallows (i.byteBefore (prev.map Literal.canon)) = swallows (i.byteBefore prev) := by
  unfold Item.byteBefore
  by_cases hb : i.before = []
  · by_cases hprev : ∃ m n, prev = some (.num m n)
    · obtain ⟨m,n,rfl⟩ := hprev
      have hzero : ¬swallows (prevByte ((some (Literal.num m n)).map Literal.canon)) := by
        cases m <;> exact (by decide : ¬swallows (some 48))
      rw [hb,after_nil,after_nil,Bool.eq_false_iff.mpr hzero]
      cases hs : swallows (prevByte (some (.num m n)))
      · exact .inr ⟨fun h => Bool.false_ne_true (hs.symm.trans h.2.2),rfl⟩
      · exact .inl ⟨⟨hb,⟨m,n,rfl⟩,hs⟩,rfl,by simp⟩
    · refine .inr ⟨fun h => hprev h.2.1,?_⟩
      rw [prevByte_canon fun m n h => hprev ⟨m,n,h⟩]
  · exact .inr ⟨fun h => hb h.1,by rw [after_of_ne_nil hb]⟩

lemma shown_cases (n : Number) : n.simple ∧ n.shown = [63] ∨ ¬n.simple ∧ 4 ≤ weight n.shown := by
  cases n with
  | decimal d more e hd hmore =>
    cases e with
    | none => exact .inl ⟨rfl,rfl⟩
    | some e =>
      have := weight_exponent e
      exact .inr ⟨by simp [Number.simple],by simp [Number.shown,weight_cons]; omega⟩
  | point d more e hd hmore =>
    have := weight_elim e
    exact .inr ⟨by simp [Number.simple],by simp [Number.shown,weight_cons]; omega⟩
  | hex => exact .inl ⟨rfl,rfl⟩

lemma signed_cases (n : Number) (taken : Bool) :
    (n.simple ∧ (n.isHex → ¬taken)) ∧ n.signed taken = (if taken then [63] else [45,63]) ∨
    ¬(n.simple ∧ (n.isHex → ¬taken)) ∧ 3 ≤ weight (n.signed taken) := by
  cases n with
  | decimal d more e hd hmore =>
    cases e with
    | none => exact .inl ⟨⟨rfl,by simp [Number.isHex]⟩,by simp [Number.signed,Number.leak,Number.shown]⟩
    | some e =>
      have := weight_exponent e
      refine .inr ⟨by simp [Number.simple],?_⟩
      cases taken <;> simp [Number.signed,Number.leak,Number.shown,weight_cons] <;> omega
  | point d more e hd hmore =>
    have := weight_elim e
    refine .inr ⟨by simp [Number.simple],?_⟩
    simp [Number.signed,Number.leak,Number.shown,weight_cons]
    omega
  | hex m digits hm hdigits =>
    cases taken with
    | false => exact .inl ⟨⟨rfl,by simp⟩,rfl⟩
    | true =>
      have hno (c : UInt8) (hc : c ∈ 63::m::digits) : c≠45 := by
        obtain rfl | rfl | hc := by simpa using hc
        · decide
        · obtain rfl | rfl := hm <;> decide
        · exact (hexDigit_class (hdigits c hc)).2.2.2.1
      refine .inr ⟨by simp [Number.isHex],?_⟩
      change 3 ≤ weight (63::m::digits)
      rw [weight_eq hno,List.length_cons,List.length_cons]
      push_cast
      omega

lemma item_compare (prev : Option Literal) (i : Item) :
    Tells (i.Plain prev) (i.lit.shown (i.byteBefore prev))
      (i.lit.canon.shown (i.byteBefore (prev.map Literal.canon))) := by
  have hswallows := swallows_canon prev i
  generalize i.byteBefore (prev.map Literal.canon) = l' at hswallows ⊢
  unfold Tells
  cases hlit : i.lit with
  | str q body hq hbody =>
    have hplain : i.Plain prev ↔ .doubled ∉ body := by simp only [Item.Plain,hlit]
    rw [hplain]
    by_cases h : Inner.doubled ∈ body
    · refine .inr ⟨not_not.mpr h,?_⟩
      have hpos := List.count_pos_iff.mpr h
      simp [Literal.shown,Literal.canon,weight]
      omega
    · exact .inl ⟨h,by simp [Literal.shown,Literal.canon,List.count_eq_zero.mpr h]⟩
  | num minus n =>
    have hplain : i.Plain prev ↔ n.simple ∧
      (minus → (n.isHex → ¬swallows (i.byteBefore prev)) ∧ ¬Dotted prev i) := by
      simp only [Item.Plain,hlit]
    rw [hplain]
    cases minus with
    | false =>
      obtain ⟨hsimple,hshown⟩ | ⟨hsimple,hshown⟩ := shown_cases n
      · exact .inl ⟨⟨hsimple,by simp⟩,hshown⟩
      · have hcanon : weight ((Literal.num false n).canon.shown l') = 2 := rfl
        exact .inr ⟨fun h => hsimple h.1,by rw [hcanon,Literal.shown]; omega⟩
    | true =>
      generalize i.byteBefore prev = l at hswallows ⊢
      have hcanon : (Literal.num true n).canon.shown l' = if swallows l' then [63] else [45,63] := by
        simp [Literal.canon,Literal.shown,Number.signed,Number.leak,Number.shown]
      have hone : weight [45,63] = 1 := rfl
      have htwo : weight [63] = 2 := rfl
      rw [hcanon,Literal.shown]
      obtain ⟨hdot,hs,hs'⟩ | ⟨hdot,hs⟩ := hswallows
      · refine .inr ⟨fun h => (h.2 rfl).2 hdot,?_⟩
        rw [if_neg hs',hone,hs]
        obtain ⟨-,hshown⟩ | ⟨-,hshown⟩ := signed_cases n true
        · rw [hshown]
          decide
        · omega
      · rw [hs]
        obtain ⟨hsimple,hshown⟩ | ⟨hsimple,hshown⟩ := signed_cases n (swallows l)
        · exact .inl ⟨⟨hsimple.1,fun _ => ⟨hsimple.2,hdot⟩⟩,hshown⟩
        · refine .inr ⟨fun h => hsimple ⟨h.1,(h.2 rfl).1⟩,?_⟩
          split_ifs <;> omega

lemma canon_num {lit : Literal} {m : Bool} {n : Number} (h : lit.canon = .num m n) :
    ∃ n', lit = .num m n' := by
  cases lit with
  | str => cases h
  | num m n' =>
    cases h
    exact ⟨n',rfl⟩

lemma Item.Fits.canon (h : i.Fits prev) : i.canon.Fits (prev.map Literal.canon) := by
  obtain ⟨hclear,hlead,hadj⟩ := h
  refine ⟨fun m n hn => ?_,fun n hn => ?_,fun hb => ?_⟩
  · obtain ⟨lit,hlit,hcanon⟩ := Option.map_eq_some_iff.mp hn
    obtain ⟨n',rfl⟩ := canon_num hcanon
    exact hclear m n' hlit
  · obtain ⟨n',hn'⟩ := canon_num hn
    exact hlead n' hn'
  · have hadj := hadj hb
    obtain ⟨before,lit⟩ := i
    obtain _ | p := prev
    · exact trivial
    · cases lit with
      | str => cases p <;> exact hadj
      | num minus n => cases p <;> cases minus <;> exact hadj

lemma Marked.canon (hm : Marked prev is u) : Marked (prev.map Literal.canon) (is.map Item.canon) u := by
  induction is generalizing prev with
  | nil =>
    intro m n hn
    obtain ⟨lit,hlit,hcanon⟩ := Option.map_eq_some_iff.mp hn
    obtain ⟨n',rfl⟩ := canon_num hcanon
    exact hm m n' hlit
  | cons i is ih => exact ⟨hm.1.canon,ih hm.2⟩

lemma Literal.head (lit : Literal) (r : Bytes) :
    (∃ n, lit = .num false n) ∨ ∃ c b, lit.text++r = c::b ∧ ¬joinsNumber c ∧ ¬isDigit c := by
  cases lit with
  | str q body hq hbody => exact .inr ⟨q,_,rfl,by obtain rfl | rfl := hq <;> decide⟩
  | num minus n =>
    cases minus with
    | false => exact .inl ⟨n,rfl⟩
    | true => exact .inr ⟨45,_,rfl,by decide⟩

lemma Marked.clear {m : Bool} {n : Number} (hm : Marked (some (.num m n)) is u) : Free (render is u) := by
  cases is with
  | nil => exact (hm m n rfl).1
  | cons i is =>
    obtain ⟨⟨hclear,-,hadj⟩,-⟩ := hm
    rw [render]
    cases hb : i.before with
    | nil =>
      obtain ⟨n',hn'⟩ | ⟨c,b,hc,hjoins,-⟩ := i.lit.head (render is u)
      · have := hadj hb
        rw [hn'] at this
        exact this.elim
      · rw [List.nil_append,hc]
        rintro c ⟨⟩
        exact hjoins
    | cons c b =>
      rintro c ⟨⟩
      exact (hclear m n rfl).1 c (by rw [hb]; rfl)

lemma Item.Fits.ready (hfit : i.Fits prev) (r : Bytes) :
    ∀ c ∈ after none i.before, Ready c (i.lit.text++r) := by
  intro c hc d hd
  obtain ⟨n,hn⟩ | ⟨e,b,he,hjoins,hdigit⟩ := i.lit.head r
  · obtain ⟨hjoins,h45⟩ := hfit.2.1 n hn c hc
    exact ⟨fun h => absurd h hjoins,fun h => absurd h h45⟩
  · rw [he] at hd
    cases hd
    exact ⟨fun _ => hjoins,fun _ => hdigit⟩

lemma Item.Fits.not_word (hfit : i.Fits prev) {n : Number} (hn : i.lit = .num false n) :
    ¬(i.byteBefore prev).any isIdentChar := by
  unfold Item.byteBefore
  by_cases hb : i.before = []
  · have hadj := hfit.2.2 hb
    rw [hn] at hadj
    rw [hb,after_nil]
    cases prev with
    | none => decide
    | some lit =>
      cases lit with
      | str q body hq hbody =>
        have hlast : prevByte (some (.str q body hq hbody)) = some q := by
          simp [prevByte,Literal.text,after]
        rw [hlast]
        obtain rfl | rfl := hq <;> decide
      | num m n' => exact hadj.elim
  · rw [after_of_ne_nil hb _ none]
    intro h
    obtain ⟨c,hc,hident⟩ := (Option.any_eq_true ..).mp h
    exact (hfit.2.1 n hn c hc).1 (by simp [joinsNumber,hident])

lemma stretch_compare (hclear : Clear prev u) (hu : ∀ c ∈ u, c≠39 ∧ c≠34) (hne : u≠[]) :
    ∃ out, ∀ r, (∀ c ∈ after none u, Ready c r) →
    redactFrom .code (prevByte prev) (u++r) = out++redactFrom .code (after none u) r ∧
      redactFrom .code (prevByte (prev.map Literal.canon)) (u++r) =
        out++redactFrom .code (after none u) r := by
  obtain ⟨c,u,rfl⟩ := List.exists_cons_of_ne_nil hne
  obtain ⟨out,hout⟩ := stretch_run (l := prevByte prev) (m := .code) (.inl rfl) hu
  refine ⟨out,fun r hr => ⟨hout r hr,?_⟩⟩
  by_cases hprev : ∃ m n, prev = some (.num m n)
  · refine Eq.trans ?_ (hout r hr)
    obtain ⟨m,n,rfl⟩ := hprev
    obtain ⟨hhead,hminus⟩ := hclear m n rfl
    have hd : ¬isDigit c := fun hd => hhead c rfl (by simp [joinsNumber,(digit_class hd).2.1])
    have h45 (l : Option UInt8) : ¬(c = 45 ∧ (u++r).head?.any isDigit ∧ swallows l) := by
      rintro ⟨rfl,hdigit,-⟩
      cases u with
      | nil =>
        obtain ⟨d,hd,hdigit⟩ := (Option.any_eq_true ..).mp hdigit
        exact (hr 45 rfl d hd).2 rfl hdigit
      | cons d u => exact hminus ⟨rfl,hdigit⟩
    have hc : ¬isDigit c ∧ c≠39 ∧ c≠34 := ⟨hd,hu c List.mem_cons_self⟩
    rw [List.cons_append,redactFrom_plain hc (h45 _),redactFrom_plain hc (h45 _)]
  · rw [prevByte_canon fun m n h => hprev ⟨m,n,h⟩]
    exact hout r hr

lemma Literal.text_ne_nil (lit : Literal) : lit.text≠[] := by
  cases lit with
  | str => simp [Literal.text]
  | num minus n => cases n <;> simp [Literal.text,Number.text]

lemma item_run (hm : Marked prev (i::is) u) :
    redactFrom .code (i.byteBefore prev) (i.lit.text++render is u) =
    i.lit.shown (i.byteBefore prev)++redactFrom .code (prevByte (some i.lit)) (render is u) := by
  obtain ⟨hfit,hm⟩ := hm
  have hfree (m : Bool) (n : Number) (hn : i.lit = .num m n) : Free (render is u) := by
    rw [hn] at hm
    exact hm.clear
  rw [i.lit.run (fun n hn => hfit.not_word hn) hfree,after_of_ne_nil i.lit.text_ne_nil _ none]
  rfl

lemma redact_compare (hm : Marked prev is u) (hq : Quiet is u) :
    Tells (Plain prev is) (redactFrom .code (prevByte prev) (render is u))
    (redactFrom .code (prevByte (prev.map Literal.canon)) (render (is.map Item.canon) u)) := by
  induction is generalizing prev with
  | nil =>
    refine .inl ⟨trivial,?_⟩
    by_cases hu : u = []
    · rw [hu]
      rfl
    · obtain ⟨out,hout⟩ := stretch_compare hm hq.2 hu
      have h := hout [] (by simp [Ready])
      rw [List.append_nil] at h
      exact h.1.trans h.2.symm
  | cons i is ih =>
    have ih := ih hm.2 ⟨fun j hj => hq.1 j (List.mem_cons_of_mem _ hj),hq.2⟩
    have htells : Tells (Plain prev (i::is))
      (redactFrom .code (i.byteBefore prev) (i.lit.text++render is u))
        (redactFrom .code (i.byteBefore (prev.map Literal.canon))
          (i.canon.lit.text++render (is.map Item.canon) u)) := by
      have hcanon := item_run hm.canon
      rw [item_run hm]
      exact hcanon ▸ (item_compare prev i).append ih
    rw [List.map_cons,render,render,show i.canon.before = i.before from rfl]
    by_cases hb : i.before = []
    · rw [hb]
      rwa [Item.byteBefore,Item.byteBefore,hb] at htells
    · obtain ⟨out,hout⟩ := stretch_compare hm.1.1 (hq.1 i List.mem_cons_self) hb
      rw [(hout _ (hm.1.ready _)).1,(hout _ (hm.1.canon.ready _)).2]
      rw [Item.byteBefore,Item.byteBefore,after_of_ne_nil hb _ none,
        after_of_ne_nil hb (prevByte (prev.map Literal.canon)) none] at htells
      exact htells.prepend out

end Compare

/-- Two texts that differ in their literals, those of the second being plain, are redacted to the
same iff those of the first are plain. -/
theorem lexicalRedact_eq_iff {s t : List Item} {u : Bytes} (hs : Marked none s u)
    (ht : Marked none t u) (hq : Quiet s u)
    (hst : s.map Item.canon = t.map Item.canon) (hplain : Plain none t) :
    lexicalRedact (render s u) = lexicalRedact (render t u) ↔ Plain none s := by
  have hqt : Quiet t u := by
    refine ⟨fun i hi => ?_,hq.2⟩
    obtain ⟨j,hj,heq⟩ := List.mem_map.mp (hst ▸ List.mem_map_of_mem hi : i.canon ∈ s.map Item.canon)
    have hbefore : i.before = j.before := (congrArg Item.before heq :).symm
    rw [hbefore]
    exact hq.1 j hj
  obtain ⟨-,htext⟩ | ⟨hnot,-⟩ := redact_compare ht hqt
  · rw [← hst] at htext
    obtain ⟨hsplain,hstext⟩ | ⟨hsplain,hless⟩ := redact_compare hs hq
    · exact ⟨fun _ => hsplain,fun _ => hstext.trans htext.symm⟩
    · refine ⟨fun h => ?_,fun h => absurd h hsplain⟩
      exact absurd (congrArg weight (h.trans htext)) hless.ne'
  · exact absurd hplain hnot

/-- A condition on a string and on a number. -/
def condition (body : List Inner) (hbody : ∀ c, .plain c ∈ body → c≠39 ∧ c≠92) (n : Number) :
    List Item :=
  [⟨ascii "a=",.str 39 body (.inl rfl) hbody⟩,⟨ascii " AND b=",.num false n⟩]

lemma condition_marked (body : List Inner) (hbody : ∀ c, .plain c ∈ body → c≠39 ∧ c≠92)
    (n : Number) : Marked none (condition body hbody n) (ascii " OR c") := by
  refine ⟨⟨?_,?_,?_⟩,⟨?_,?_,?_⟩,?_⟩
  · exact fun _ _ h => nomatch h
  · exact fun _ h => nomatch h
  · exact fun h => absurd h (show ascii "a="≠[] by decide +kernel)
  · exact fun _ _ h => nomatch h
  · exact fun _ _ => show ∀ c ∈ after none (ascii " AND b="), ¬joinsNumber c ∧ c≠45 by decide +kernel
  · exact fun h => absurd h (show ascii " AND b="≠[] by decide +kernel)
  · exact fun _ _ _ => ⟨by rw [Free]; decide +kernel,by decide +kernel⟩

lemma condition_quiet (body : List Inner) (hbody : ∀ c, .plain c ∈ body → c≠39 ∧ c≠92)
    (n : Number) : Quiet (condition body hbody n) (ascii " OR c") := by
  refine ⟨?_,by decide +kernel⟩
  simp only [condition,List.forall_mem_cons,List.not_mem_nil,false_imp_iff,implies_true,and_true]
  decide +kernel

def oneCondition : List Item :=
  condition [.plain 120] (by simp) (.decimal 55 (ascii ".5") none rfl (by decide +kernel))

def otherCondition : List Item :=
  condition [.plain 121,.plain 122] (by simp) (.hex 120 (ascii "1F") (.inl rfl) (by decide +kernel))

/-- The string and the number of a condition do not show. -/
theorem condition_redacted :
    render oneCondition (ascii " OR c") = ascii "a='x' AND b=7.5 OR c" ∧
    render otherCondition (ascii " OR c") = ascii "a='yz' AND b=0x1F OR c" ∧
    lexicalRedact (render oneCondition (ascii " OR c")) =
      lexicalRedact (render otherCondition (ascii " OR c")) := by
  have hone : Plain none oneCondition := by
    simp [oneCondition,condition,Plain,Item.Plain,Number.simple]
  have hother : Plain none otherCondition := by
    simp [otherCondition,condition,Plain,Item.Plain,Number.simple]
  refine ⟨by decide +kernel,by decide +kernel,?_⟩
  exact (lexicalRedact_eq_iff (condition_marked ..) (condition_marked ..) (condition_quiet ..)
    (by simp [condition,Item.canon,Literal.canon]) hother).mpr hone

/-- A doubled quote and an exponent are shown, and so is a string after a name with a quote in it. -/
theorem literals_shown : lexicalRedact (ascii "'its'") = ascii "?" ∧
      lexicalRedact (ascii "'it''s'") = ascii "??" ∧
    lexicalRedact (ascii "1e5") = ascii "?e5" ∧ lexicalRedact (ascii "-0xFF") = ascii "?xFF" ∧
    lexicalRedact (ascii "`it's`='secret'") = ascii "`it?secret?" := by decide +kernel

end Plomvix.Engine.Redaction
