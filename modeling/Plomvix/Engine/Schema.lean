import Plomvix.SQL.Row

/-! The values, rows and schemas that the engines exchange, and the payload in which the catalog
keeps the schema of a table. Names and texts are byte strings, as in the source. -/
namespace Plomvix.Engine
open Lib

def ascii (s : String) : Bytes := s.toList.map fun c => UInt8.ofNat c.toNat

def decimal (n : ℕ) : Bytes :=
  if n = 0 then [48] else (Nat.digits 10 n).reverse.map fun d => UInt8.ofNat (48+d)

def isDigit (c : UInt8) : Bool := decide (48 ≤ c ∧ c ≤ 57)

/-- What the engine takes from the standard library and does not itself define. Floats are their bits. -/
structure GoLib where
  toLower : Bytes → Bytes
  parseFloat : Bytes → Option UInt64
  /-- `Sscanf` with `%f`, or zero. -/
  scanFloat : Bytes → UInt64
  floatEq : UInt64 → UInt64 → Bool
  floatLess : UInt64 → UInt64 → Bool
  floatOfInt : Int64 → UInt64
  floatOfUint : UInt64 → UInt64
  intOfFloat : UInt64 → Int64
  uintOfFloat : UInt64 → UInt64

/-- The sentinel errors of the engine, the planner and the catalog, and the other errors by their
formats; `panic` is a failed type assertion. -/
inductive Err
  | unsupportedFeature | unsupportedDML | unsupportedDDL | columnCountMismatch | unknownColumn
  | duplicateColumn | typeMismatch | unsupportedInsertValue | batchTooLarge | notNullViolation
  | txConflict | tableExists | emptySchema
  | plannerUnsupportedFeature | tableHeapNotFound | ambiguousColumn | columnNotFound
  | emptyName | tableNotFound | duplicateTable
  | rowIDGenerationOverflow | rowIDOffsetOverflow
  | heap (e : SQL.Err)
  | source
  | syntaxError
  | panic
  | hangs
  | format (text : String) (args : List Bytes)
  | wrap (text : String) (e : Err) (args : List Bytes)
  deriving DecidableEq

inductive Typ
  | null | int64 | uint64 | float64 | bool | string | bytes
  | other (code : UInt8)
  deriving DecidableEq

def Typ.code : Typ → UInt8
  | .null => 0
  | .int64 => 1
  | .uint64 => 2
  | .float64 => 3
  | .bool => 4
  | .string => 5
  | .bytes => 6
  | .other c => c

def Typ.ofCode (c : UInt8) : Typ :=
  if c = 0 then .null else if c = 1 then .int64 else if c = 2 then .uint64 else if c = 3 then .float64
  else if c = 4 then .bool else if c = 5 then .string else if c = 6 then .bytes else .other c

inductive Value
  | nil
  | int64 (i : Int64)
  | uint64 (n : UInt64)
  | float64 (bits : UInt64)
  | bool (b : Bool)
  | string (s : Bytes)
  | bytes (b : Bytes)
  deriving DecidableEq

def Value.toVal : Value → SQL.Val
  | .nil => .null
  | .int64 i => .int64 i
  | .uint64 n => .uint64 n
  | .string s => .string s
  | .bytes b => .bytes b
  | .float64 _ | .bool _ => .other

/-- A value tagged with a type. -/
structure Datum where
  typ : Typ
  value : Value
  deriving DecidableEq

/-- The values of a row, with its id. -/
structure Row where
  datums : List Datum
  rowID : UInt64
  deriving DecidableEq

/-- What is handed to the heap. -/
def Row.vals (row : Row) : List SQL.Val := row.datums.map fun d => d.value.toVal

/-- A column of an engine schema. -/
structure Column where
  name : Bytes
  typ : Typ
  notNull : Bool
  defaultValue : Option Datum
  deriving DecidableEq

/-- The columns of a table, in order. -/
structure Schema where
  columns : List Column
  deriving DecidableEq

def encodeRowID (generation physicalOffset : UInt64) : Except Err UInt64 :=
  if 0xFFFFFFFF < generation then .error .rowIDGenerationOverflow
  else if 0xFFFFFFFE < physicalOffset then .error .rowIDOffsetOverflow
  else .ok (generation <<< 32 ||| (physicalOffset+1))

def putUint16 (n : ℕ) : Bytes := beBytes 2 n

def flagNotNull : UInt8 := 0x01
def flagHasDefault : UInt8 := 0x02

def encodeDatum (d : Datum) : Except Err Bytes :=
  match d.typ with
  | .int64 => .ok (d.typ.code::SQL.be64 (match d.value with | .int64 i => i.toUInt64 | _ => 0))
  | .uint64 => .ok (d.typ.code::SQL.be64 (match d.value with | .uint64 n => n | _ => 0))
  | .float64 => .ok (d.typ.code::SQL.be64 (match d.value with | .float64 bits => bits | _ => 0))
  | .bool => .ok [d.typ.code,match d.value with | .bool true => 1 | _ => 0]
  | .string =>
    let v := match d.value with | .string s => s | _ => []
    .ok (d.typ.code::putUint16 v.length++v)
  | .bytes =>
    let v := match d.value with | .bytes b => b | _ => []
    .ok (d.typ.code::putUint16 v.length++v)
  | .null => .ok [d.typ.code]
  | .other c => .error (.format "schema: unsupported default value type %d" [decimal c.toNat])

def encodeColumn (col : Column) : Except Err Bytes :=
  let flags := (if col.notNull then flagNotNull else 0) ||| (if col.defaultValue.isSome then
    flagHasDefault else 0)
  let fixed := putUint16 col.name.length++col.name++[col.typ.code,flags]
  match col.defaultValue with
  | none => .ok fixed
  | some d => (encodeDatum d).map (fixed++·)

def encodeColumns : List Column → Except Err Bytes
  | [] => .ok []
  | col::cols => do return (← encodeColumn col)++(← encodeColumns cols)

def Schema.encode (s : Schema) :
    Except Err Bytes := do return putUint16 s.columns.length++(← encodeColumns s.columns)

def decodeDatum (b : Bytes) : Except Err (Datum × ℕ) :=
  match b with
  | [] => .error (.format "schema: truncated at default type" [])
  | code::rest =>
    let t := Typ.ofCode code
    let eight (v : UInt64 → Value) : Except Err (Datum × ℕ) :=
      if rest.length < 8 then .error (.format "schema: truncated at 8-byte default value" [])
      else .ok (⟨t,v (SQL.getUint64 rest)⟩,9)
    let counted (v : Bytes → Value) : Except Err (Datum × ℕ) :=
      if rest.length < 2 then .error (.format "schema: truncated at string/bytes default length" [])
      else if (rest.drop 2).length < beNat (rest.take 2) then
        .error (.format "schema: truncated at string/bytes default value" [])
      else .ok (⟨t,v ((rest.drop 2).take (beNat (rest.take 2)))⟩,3+beNat (rest.take 2))
    match t with
    | .int64 => eight fun u => .int64 u.toInt64
    | .uint64 => eight .uint64
    | .float64 => eight .float64
    | .bool =>
      match rest with
      | [] => .error (.format "schema: truncated at bool default value" [])
      | x::_ => .ok (⟨t,.bool (x != 0)⟩,2)
    | .string => counted .string
    | .bytes => counted .bytes
    | .null => .ok (⟨t,.nil⟩,1)
    | .other c => .error (.format "schema: unknown default type %d" [decimal c.toNat])

/-- The loop over the columns, from the `i`-th on: `n` of them are left in what is left of the payload. -/
def decodeColumns : ℕ → ℕ → Bytes → Except Err (List Column)
  | 0,_,_ => .ok []
  | n+1,i,payload =>
    if payload.length < 2 then
      .error (.format "schema: truncated at name length for column %d" [decimal i])
    else
      let nameLen := beNat (payload.take 2)
      if (payload.drop 2).length < nameLen then
        .error (.format "schema: truncated at name for column %d" [decimal i])
      else
        let name := (payload.drop 2).take nameLen
        match (payload.drop 2).drop nameLen with
        | [] => .error (.format "schema: truncated at type for column %d" [decimal i])
        -- the old format, without flags
        | [code] => do return ⟨name,Typ.ofCode code,false,none⟩::(← decodeColumns n (i+1) [])
        | code::flags::rest =>
          let notNull := flags &&& flagNotNull != 0
          if flags &&& flagHasDefault != 0 then
            match decodeDatum rest with
            | .error e => .error (.wrap "schema: default value for column %q: %w" e [name])
            | .ok (dv,used) => do
              return ⟨name,Typ.ofCode code,notNull,some dv⟩::(← decodeColumns n (i+1) (rest.drop used))
          else do return ⟨name,Typ.ofCode code,notNull,none⟩::(← decodeColumns n (i+1) rest)

def Schema.decode (payload : Bytes) : Except Err Schema :=
  if payload.length < 2 then .error (.format "schema: payload too short for column count" [])
  else (decodeColumns (beNat (payload.take 2)) 0 (payload.drop 2)).map Schema.mk

end Plomvix.Engine
