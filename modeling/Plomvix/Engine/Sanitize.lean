import Plomvix.Engine.Schema

/-! The two scanners of the normaliser: the one drops comments, the other puts a question mark for
every literal. Each goes over the text once; the loops inside loops of the source are its modes. -/
namespace Plomvix.Engine
open Lib

def isHexDigit (c : UInt8) : Bool := isDigit c || decide (97 ≤ c ∧ c ≤ 102) || decide (65 ≤ c ∧ c ≤ 70)

def isIdentChar (c : UInt8) : Bool :=
  isDigit c || decide (97 ≤ c ∧ c ≤ 122) || decide (65 ≤ c ∧ c ≤ 90) || c == 95

/-- A mark is the second character of what opens or closes a comment. -/
inductive StripMode
  | code
  | lineMark
  | line
  | blockMark
  | block
  | blockEnd
  | quoted (quote : UInt8)
  | escaped (quote : UInt8)

def stripFrom : StripMode → Bytes → Bytes
  | _,[] => []
  | .code,c::rest =>
    if c = 45 ∧ rest.head? = some 45 then stripFrom .lineMark rest
    else if c = 47 ∧ rest.head? = some 42 then stripFrom .blockMark rest
    else if c = 35 then stripFrom .line rest
    else if c = 39 ∨ c = 34 ∨ c = 96 then c::stripFrom (.quoted c) rest
    else c::stripFrom .code rest
  | .lineMark,_::rest => stripFrom .line rest
  | .line,c::rest => stripFrom (if c = 10 then .code else .line) rest
  | .blockMark,_::rest => stripFrom .block rest
  | .block,c::rest =>
    if c = 42 ∧ rest.head? = some 47 then stripFrom .blockEnd rest
    -- the last byte of an open comment is read as code
    else if rest = [] then if c = 35 then [] else [c]
    else stripFrom .block rest
  | .blockEnd,_::rest => stripFrom .code rest
  | .quoted q,c::rest =>
    if c = 92 ∧ rest≠[] then c::stripFrom (.escaped q) rest
    else if c = q then c::stripFrom .code rest
    else c::stripFrom (.quoted q) rest
  | .escaped q,c::rest => c::stripFrom (.quoted q) rest

def stripCommentsLex (sql : Bytes) : Bytes := stripFrom .code sql

inductive RedactMode
  | code
  | quoted (quote : UInt8)
  | escaped (quote : UInt8)
  | hexMark
  | hex
  | number

/-- The step of the scanner outside of literals; `last` is the byte before. -/
def redactCode (last : Option UInt8) (c : UInt8) (next : Option UInt8) : UInt8 × RedactMode :=
  if c = 39 ∨ c = 34 then (63,.quoted c)
  else if isDigit c then
    if c = 48 ∧ (next = some 120 ∨ next = some 88) then (63,.hexMark)
    else if last.any isIdentChar then (c,.code)
    else (63,.number)
  else if c = 45 ∧ next.any isDigit ∧ last.all (fun p => !isIdentChar p && p != 41) then (63,.number)
  else (c,.code)

/-- A literal ends at the first byte that is not in it, which is then read as code. -/
def redactFrom : RedactMode → Option UInt8 → Bytes → Bytes
  | _,_,[] => []
  | .quoted q,_,c::rest =>
    if c = 92 ∧ rest≠[] then redactFrom (.escaped q) (some c) rest
    else redactFrom (if c = q then .code else .quoted q) (some c) rest
  | .escaped q,_,c::rest => redactFrom (.quoted q) (some c) rest
  | .hexMark,_,c::rest => redactFrom .hex (some c) rest
  | mode,last,c::rest =>
    let inside := match mode with
      | .hex => isHexDigit c
      | .number => isDigit c || c == 46
      | _ => false
    if inside then redactFrom mode (some c) rest
    else (redactCode last c rest.head?).1::redactFrom (redactCode last c rest.head?).2 (some c) rest

/-- The fallback for texts that do not parse. -/
def lexicalRedact (sql : Bytes) : Bytes := redactFrom .code none sql

example : lexicalRedact (ascii "WHERE `id` = 10 AND t2.a = 'it''s' OR b = -1.5") =
    ascii "WHERE `id` = ? AND t2.a = ?? OR b = ?" := by decide +kernel

end Plomvix.Engine
