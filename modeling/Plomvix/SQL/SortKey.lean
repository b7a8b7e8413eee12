import Plomvix.SQL.Row
import Plomvix.Lib.Fallible

/-! Keys with the places of their fields, as `key.go` makes, parses and decodes them. An index out
of bounds is a panic. -/
namespace Plomvix.SQL.SortKey
open Lib Fallible

inductive Fault
  | invalidKey | kindMismatch | notComposite | unsupportedSortType | unsupportedType | nullByteInString
  | panic
  deriving DecidableEq

/-- `none` is a byte that is no kind. -/
structure Field where
  kind : Option Kind
  offset : ℕ
  length : ℕ
  deriving DecidableEq

/-- The key built so far. -/
structure Key where
  data : Bytes
  fields : List Field
  deriving DecidableEq

/-- `bytes.Compare`. -/
def compareBytes (a b : Bytes) : ℤ := if a < b then -1 else if a = b then 0 else 1

def Key.compare (k other : Key) : ℤ := compareBytes k.data other.data

def sliceFrom (b : Bytes) (i : ℕ) : Except Fault Bytes :=
  if i ≤ b.length then .ok (b.drop i) else .error .panic

def slice (b : Bytes) (i j : ℕ) : Except Fault Bytes :=
  if i ≤ j ∧ j ≤ b.length then .ok ((b.take j).drop i) else .error .panic

def readUint64 (b : Bytes) : Except Fault UInt64 :=
  if 8 ≤ b.length then .ok (getUint64 b) else .error .panic

def readUint32 (b : Bytes) : Except Fault ℕ :=
  if 4 ≤ b.length then .ok (beNat (b.take 4)) else .error .panic

def Number (kind : Option Kind) : Prop := kind = some .uint64 ∨ kind = some .int64

instance (kind : Option Kind) : Decidable (Number kind) := inferInstanceAs (Decidable (_ ∨ _))

def validateField (data : Bytes) (f : Field) : Except Fault Unit :=
  if data.length < f.offset then .error .invalidKey
  else if data.length-f.offset < f.length then .error .invalidKey
  else if Number f.kind ∧ f.length≠8 then .error .invalidKey
  else .ok ()

def encodeUint64 (v : UInt64) : Key := ⟨be64 v,[⟨some .uint64,0,8⟩]⟩

def encodeInt64 (v : Int64) : Key := ⟨be64 (v.toUInt64^^^signBit),[⟨some .int64,0,8⟩]⟩

def encodeString (s : Bytes) : Except Fault Key :=
  if 0 ∈ s then .error .nullByteInString else .ok ⟨s++[0],[⟨some .string,0,s.length+1⟩]⟩

def encodeBytes (b : Bytes) : Key := ⟨b,[⟨some .bytes,0,b.length⟩]⟩

def requireScalar (k : Key) : Except Fault Field :=
  match k.fields with
  | [f] => .ok f
  | _ => .error .invalidKey

def decodeScalar {α : Type} (kind : Kind) (read : Bytes → Field → Except Fault α) (k : Key) :
    Except Fault α := do
  let f ← requireScalar k
  if f.kind≠some kind then .error .kindMismatch
  else do
    validateField k.data f
    read k.data f

def readNumber (data : Bytes) (f : Field) :
    Except Fault UInt64 := do readUint64 (← sliceFrom data f.offset)

def readSigned (data : Bytes) (f : Field) :
    Except Fault Int64 := do return ((← readNumber data f)^^^signBit).toInt64

def readBytes (data : Bytes) (f : Field) : Except Fault Bytes := slice data f.offset (f.offset+f.length)

def readString (data : Bytes) (f : Field) : Except Fault Bytes := do
  let b ← readBytes data f
  if b.getLast?≠some 0 then .error .invalidKey else .ok b.dropLast

def decodeUint64 : Key → Except Fault UInt64 := decodeScalar .uint64 readNumber
def decodeInt64 : Key → Except Fault Int64 := decodeScalar .int64 readSigned
def decodeString : Key → Except Fault Bytes := decodeScalar .string readString
def decodeBytes : Key → Except Fault Bytes := decodeScalar .bytes readBytes

def parseKeyFrom (data : Bytes) : List (Option Kind) → ℕ → Except Fault (List Field × ℕ)
  | [],pos => .ok ([],pos)
  | kind::kinds,pos =>
    match kind with
    | some .uint64 | some .int64 =>
      if data.length < pos+8 then .error .invalidKey
      else do
        let (fields,stop) ← parseKeyFrom data kinds (pos+8)
        return (⟨kind,pos,8⟩::fields,stop)
    | some .string => do
      let rest ← sliceFrom data pos
      if 0 ∉ rest then .error .invalidKey
      else do
        let (fields,stop) ← parseKeyFrom data kinds (pos+(rest.idxOf 0+1))
        return (⟨kind,pos,rest.idxOf 0+1⟩::fields,stop)
    | some .bytes =>
      if kinds≠[] then .error .invalidKey else .ok ([⟨kind,pos,data.length-pos⟩],data.length)
    | none => .error .invalidKey

def parseKey (data : Bytes) (kinds : List (Option Kind)) : Except Fault Key :=
  if kinds = [] then .error .invalidKey
  else do
    let (fields,pos) ← parseKeyFrom data kinds 0
    if pos≠data.length ∧ kinds.getLast?≠some (some .bytes) then .error .invalidKey else .ok ⟨data,fields⟩

def encodeSortFrom : List Val → ℕ → Except Fault (Bytes × List Field)
  | [],_ => .ok ([],[])
  | .uint64 n::vs,pos => do
    let (d,fs) ← encodeSortFrom vs (pos+8)
    return (be64 n++d,⟨some .uint64,pos,8⟩::fs)
  | .int64 i::vs,pos => do
    let (d,fs) ← encodeSortFrom vs (pos+8)
    return (be64 (i.toUInt64^^^signBit)++d,⟨some .int64,pos,8⟩::fs)
  | .string _::_,_ | .bytes _::_,_ => .error .unsupportedSortType
  | .null::_,_ | .other::_,_ => .error .unsupportedType

def encodeSortComposite (fields : List Val) : Except Fault Key := do
  let (d,fs) ← encodeSortFrom fields 0
  return ⟨d,fs⟩

def sortValue (data : Bytes) (f : Field) : Except Fault Val := do
  validateField data f
  match f.kind with
  | some .uint64 => return .uint64 (← readNumber data f)
  | some .int64 => return .int64 (← readSigned data f)
  | _ => .error .kindMismatch

def decodeSortComposite (k : Key) : Except Fault (List Val) :=
  if k.fields = [] then .error .notComposite else k.fields.mapM (sortValue k.data)

def storageValue (data : Bytes) (f : Field) : Except Fault Val := do
  validateField data f
  match f.kind with
  | some .uint64 => return .uint64 (← readNumber data f)
  | some .int64 => return .int64 (← readSigned data f)
  | some .string => return .string (← readBytes data f)
  | some .bytes => return .bytes (← readBytes data f)
  | none => .error .kindMismatch

def decodeStorageComposite (k : Key) : Except Fault (List Val) :=
  if k.fields = [] then .error .notComposite else k.fields.mapM (storageValue k.data)

def parseStorageFrom (data : Bytes) : List (Option Kind) → ℕ → Except Fault (List Field × ℕ)
  | [],pos => .ok ([],pos)
  | kind::kinds,pos =>
    if data.length < pos+4 then .error .invalidKey
    else do
      let length ← readUint32 (← sliceFrom data pos)
      if data.length < pos+4+length then .error .invalidKey
      else do
        let (fields,stop) ← parseStorageFrom data kinds (pos+4+length)
        return (⟨kind,pos+4,length⟩::fields,stop)

def parseStorageCompositeKey (data : Bytes) (kinds : List (Option Kind)) : Except Fault Key :=
  if kinds = [] then .error .invalidKey
  else do
    let (fields,pos) ← parseStorageFrom data kinds 0
    if pos≠data.length then .error .invalidKey else .ok ⟨data,fields⟩

section Fields
variable {data : Bytes} {f : Field}

def piece (data : Bytes) (f : Field) : Bytes := (data.drop f.offset).take f.length

lemma validateField_eq_ok : validateField data f = .ok () ↔ f.offset+f.length ≤ data.length ∧
      (Number f.kind → f.length = 8) := by
  rw [validateField]
  split_ifs with h1 h2 h3
  · simp only [false_iff]
    omega
  · simp only [false_iff]
    omega
  · simp only [false_iff]
    exact fun h => h3.2 (h.2 h3.1)
  · simp only [true_iff]
    exact ⟨by omega,fun hnumber => by_contra fun hne => h3 ⟨hnumber,hne⟩⟩

lemma validateField_avoids : Avoids .panic (validateField data f) fun _ => True := by
  rw [validateField]
  split_ifs <;> simp [Avoids]

lemma readBytes_eq (h : f.offset+f.length ≤ data.length) : readBytes data f = .ok (piece data f) := by
  rw [readBytes,slice,if_pos ⟨Nat.le_add_right ..,h⟩,piece,List.drop_take,Nat.add_sub_cancel_left]

lemma readNumber_eq (h : f.offset+f.length ≤ data.length) (hlength : f.length = 8) :
    readNumber data f = .ok (getUint64 (piece data f)) := by
  rw [hlength] at h
  have hfrom : sliceFrom data f.offset = .ok (data.drop f.offset) := if_pos (by omega)
  have hread : readUint64 (data.drop f.offset) = .ok (getUint64 (data.drop f.offset)) :=
    if_pos (by rw [List.length_drop]; omega)
  rw [readNumber,hfrom]
  refine hread.trans (congrArg Except.ok ?_)
  rw [getUint64,getUint64,piece,hlength,List.take_take,min_self]

lemma be64_piece (h : f.offset+f.length ≤ data.length) (hlength : f.length = 8) :
    be64 (getUint64 (piece data f)) = piece data f := by
  have hpiece : (piece data f).length = 8 := by
    rw [piece,List.length_take,List.length_drop]
    omega
  rw [be64_getUint64 hpiece.ge,List.take_of_length_le hpiece.le]

/-- The bytes of a value in a key. -/
def payload : Val → Bytes
  | .uint64 n => be64 n
  | .int64 i => be64 (i.toUInt64^^^signBit)
  | .string s => s
  | .bytes b => b
  | _ => []

lemma be64_signed {b : Bytes} (hb : be64 (getUint64 b) = b) :
    be64 ((getUint64 b^^^signBit).toInt64.toUInt64^^^signBit) = b := by
  have hback : (getUint64 b^^^signBit).toInt64.toUInt64 = getUint64 b^^^signBit := rfl
  rw [hback,xor_signBit,hb]

def fieldVal (data : Bytes) (f : Field) : Option Val :=
  match f.kind with
  | some .uint64 => some (.uint64 (getUint64 (piece data f)))
  | some .int64 => some (.int64 (getUint64 (piece data f)^^^signBit).toInt64)
  | some .string => some (.string (piece data f))
  | some .bytes => some (.bytes (piece data f))
  | none => none

lemma payload_fieldVal (h : validateField data f = .ok ()) {v : Val}
    (hv : fieldVal data f = some v) : payload v = piece data f := by
  obtain ⟨hbound,hlength⟩ := validateField_eq_ok.mp h
  obtain ⟨kind,offset,length⟩ := f
  cases kind with
  | none => cases hv
  | some kind =>
    cases kind <;> cases hv
    · exact be64_piece hbound (hlength (.inl rfl))
    · exact be64_signed (be64_piece hbound (hlength (.inr rfl)))
    · rfl
    · rfl

lemma storageValue_eq (h : validateField data f = .ok ()) :
    storageValue data f = match fieldVal data f with | some v => .ok v | none => .error .kindMismatch := by
  obtain ⟨hbound,hlength⟩ := validateField_eq_ok.mp h
  rw [storageValue,h]
  obtain ⟨kind,offset,length⟩ := f
  cases kind with
  | none => rfl
  | some kind =>
    cases kind with
    | uint64 => simp [fieldVal,readNumber_eq hbound (hlength (.inl rfl)),bind,Except.bind,pure,Except.pure]
    | int64 =>
      simp [fieldVal,readSigned,readNumber_eq hbound (hlength (.inr rfl)),bind,Except.bind,pure,
        Except.pure]
    | string => simp [fieldVal,readBytes_eq hbound,bind,Except.bind,pure,Except.pure]
    | bytes => simp [fieldVal,readBytes_eq hbound,bind,Except.bind,pure,Except.pure]

def Reads (data : Bytes) (f : Field) (v : Val) : Prop :=
  validateField data f = .ok () ∧ fieldVal data f = some v

lemma storageValue_avoids : Avoids .panic (storageValue data f) (Reads data f) := by
  cases hvalid : validateField data f with
  | error e =>
    rw [storageValue,hvalid]
    exact .error fun h => validateField_avoids.1 (h ▸ hvalid)
  | ok u =>
    rw [storageValue_eq hvalid]
    cases hv : fieldVal data f with
    | none => exact .error (by simp)
    | some v => exact .ok ⟨hvalid,hv⟩

lemma sortValue_eq (data : Bytes) (f : Field) :
    sortValue data f = if Number f.kind then storageValue data f else
      validateField data f >>= fun _ => .error .kindMismatch := by
  obtain ⟨kind,offset,length⟩ := f
  rw [sortValue,storageValue]
  cases kind with
  | none => rfl
  | some kind => cases kind <;> rfl

lemma sortValue_avoids : Avoids .panic (sortValue data f) fun v => Number f.kind ∧ Reads data f v := by
  rw [sortValue_eq]
  split_ifs with hnumber
  · exact ⟨storageValue_avoids.1,fun v h => ⟨hnumber,storageValue_avoids.2 v h⟩⟩
  · exact validateField_avoids.bind fun _ _ _ => .error (by simp)

lemma decodeScalar_avoids {α : Type} {kind : Kind} {read : Bytes → Field → Except Fault α} {k : Key}
    {P : α → Prop}
    (h : ∀ f, k.fields = [f] → f.kind = some kind → validateField k.data f = .ok () →
      Avoids .panic (read k.data f) P) :
    Avoids .panic (decodeScalar kind read k) P := by
  rw [decodeScalar,requireScalar]
  split
  case h_2 => exact .error (by simp)
  case h_1 f hf =>
    change Avoids _ (if f.kind≠some kind then _ else _) P
    split_ifs with hkind
    · exact .error (by simp)
    · exact validateField_avoids.bind fun _ hvalid _ => h f hf (not_not.mp hkind) hvalid

end Fields

section Parse
variable {data : Bytes} {kinds : List (Option Kind)} {pos stop : ℕ} {fields : List Field}

lemma piece_append (data : Bytes) (f : Field) :
    data.drop f.offset = piece data f++data.drop (f.offset+f.length) := by
  rw [piece,← List.drop_drop,List.take_append_drop]

/-- The fields, each with the bytes it takes up, lie one behind the other from the position to the
end of the loop. -/
structure Tiled (data : Bytes) (tile : Field → Bytes) (kinds : List (Option Kind)) (pos : ℕ)
    (fields : List Field) (stop : ℕ) : Prop where
  within : stop ≤ data.length
  bytes : data.drop pos = fields.flatMap tile++data.drop stop
  kinds : fields.map Field.kind = kinds

lemma Tiled.cons {tile : Field → Bytes} {f : Field} {next : ℕ} (h : Tiled data tile kinds next fields stop)
    (htile : data.drop pos = tile f++data.drop next) :
    Tiled data tile (f.kind::kinds) pos (f::fields) stop := by
  refine ⟨h.within,?_,by rw [List.map_cons,h.kinds]⟩
  rw [htile,h.bytes,List.flatMap_cons,List.append_assoc]

lemma parseKeyFrom_avoids (hpos : pos ≤ data.length) : Avoids .panic (parseKeyFrom data kinds pos) fun p =>
    Tiled data (piece data) kinds pos p.1 p.2 ∧
      (kinds.getLast? = some (some .bytes) → p.2 = data.length) := by
  induction kinds generalizing pos with
  | nil => exact .ok ⟨⟨hpos,rfl,rfl⟩,by simp⟩
  | cons kind kinds ih =>
    -- the fields that have others behind them
    have hnext {n : ℕ} (hn : pos+n ≤ data.length) (hkind : kind≠some .bytes) :
        Avoids .panic (do
          let (fields,stop) ← parseKeyFrom data kinds (pos+n)
          return (⟨kind,pos,n⟩::fields,stop)) fun p =>
          Tiled data (piece data) (kind::kinds) pos p.1 p.2 ∧
            ((kind::kinds).getLast? = some (some .bytes) → p.2 = data.length) := by
      refine (ih hn).bind fun p _ hp =>
        .ok ⟨hp.1.cons (piece_append data ⟨kind,pos,n⟩),fun hbytes => hp.2 ?_⟩
      cases kinds with
      | nil => simp [hkind] at hbytes
      | cons => simpa using hbytes
    cases kind with
    | none => exact .error (by simp)
    | some kind =>
      cases kind with
      | uint64 | int64 =>
        rw [parseKeyFrom]
        split_ifs with hlen
        exacts [.error (by simp),hnext (not_lt.mp hlen) (by simp)]
      | string =>
        rw [parseKeyFrom,sliceFrom,if_pos hpos]
        change Avoids _ (if 0 ∉ data.drop pos then _ else _) _
        split_ifs with hmem
        · have hidx := List.idxOf_lt_length_of_mem hmem
          rw [List.length_drop] at hidx
          exact hnext (n := (data.drop pos).idxOf 0+1) (by omega) (by simp)
        · exact .error (by simp)
      | bytes =>
        rw [parseKeyFrom]
        split_ifs with hnil
        · exact .error (by simp)
        · obtain rfl : kinds = [] := not_not.mp hnil
          exact .ok ⟨⟨le_rfl,by simp [piece,List.take_of_length_le],rfl⟩,fun _ => rfl⟩

lemma parseKey_avoids (data : Bytes) (kinds : List (Option Kind)) :
    Avoids .panic (parseKey data kinds) fun k =>
    k.data = data ∧ data = k.fields.flatMap (piece data) ∧ k.fields.map Field.kind = kinds := by
  rw [parseKey]
  split_ifs
  · exact .error (by simp)
  · refine (parseKeyFrom_avoids (Nat.zero_le _)).bind fun p _ hp => ?_
    obtain ⟨htiled,hlast⟩ := hp
    simp only
    split_ifs with hstop
    · exact .error (by simp)
    · have hend : p.2 = data.length := by
        by_contra hne
        exact hstop ⟨hne,fun hbytes => hne (hlast hbytes)⟩
      have hbytes := htiled.bytes
      rw [hend,List.drop_length,List.append_nil,List.drop_zero] at hbytes
      exact .ok ⟨rfl,hbytes,htiled.kinds⟩

def framed (data : Bytes) (f : Field) : Bytes := appendLen4 f.length++piece data f

lemma readUint32_sliceFrom (hpos : pos+4 ≤ data.length) :
    (sliceFrom data pos >>= readUint32) = .ok (beNat ((data.drop pos).take 4)) := by
  rw [sliceFrom,if_pos (by omega)]
  exact if_pos (by rw [List.length_drop]; omega)

lemma appendLen4_beNat (hpos : pos+4 ≤ data.length) :
    appendLen4 (beNat ((data.drop pos).take 4)) = (data.drop pos).take 4 := by
  have hlen : ((data.drop pos).take 4).length = 4 := by
    rw [List.length_take,List.length_drop]
    omega
  have hback := beBytes_beNat ((data.drop pos).take 4)
  rwa [hlen] at hback

lemma parseStorageFrom_cons {kind : Option Kind} (hpos : pos+4 ≤ data.length) :
    parseStorageFrom data (kind::kinds) pos =
      if data.length < pos+4+beNat ((data.drop pos).take 4) then .error .invalidKey
      else do
        let (fields,stop) ← parseStorageFrom data kinds (pos+4+beNat ((data.drop pos).take 4))
        return (⟨kind,pos+4,beNat ((data.drop pos).take 4)⟩::fields,stop) := by
  rw [parseStorageFrom,if_neg (not_lt.mpr hpos)]
  have hread := readUint32_sliceFrom hpos
  rw [sliceFrom,if_pos (by omega)] at hread ⊢
  change readUint32 (data.drop pos) = _ at hread
  simp only [bind,Except.bind,hread]

lemma parseStorageFrom_avoids (hpos : pos ≤ data.length) :
    Avoids .panic (parseStorageFrom data kinds pos) fun p =>
      Tiled data (framed data) kinds pos p.1 p.2 := by
  induction kinds generalizing pos with
  | nil => exact .ok ⟨hpos,rfl,rfl⟩
  | cons kind kinds ih =>
    by_cases hlen : data.length < pos+4
    · rw [parseStorageFrom,if_pos hlen]
      exact .error (by simp)
    have hlen := not_lt.mp hlen
    rw [parseStorageFrom_cons hlen]
    split_ifs with hend
    · exact .error (by simp)
    · refine (ih (not_lt.mp hend)).bind fun p _ hp => .ok (hp.cons (f := ⟨kind,_,_⟩) ?_)
      rw [framed,appendLen4_beNat hlen,List.append_assoc,← piece_append data ⟨kind,pos+4,_⟩,
        ← List.drop_drop,List.take_append_drop]

lemma parseStorageCompositeKey_avoids (data : Bytes) (kinds : List (Option Kind)) :
    Avoids .panic (parseStorageCompositeKey data kinds) fun k => k.data = data ∧
      data = k.fields.flatMap (framed data) := by
  rw [parseStorageCompositeKey]
  split_ifs
  · exact .error (by simp)
  · refine (parseStorageFrom_avoids (Nat.zero_le _)).bind fun p _ hp => ?_
    simp only
    split_ifs with hend
    · exact .error (by simp)
    · have hbytes := hp.bytes
      rw [not_not.mp hend,List.drop_length,List.append_nil,List.drop_zero] at hbytes
      exact .ok ⟨rfl,hbytes⟩

end Parse

section Canonical
variable {α ε : Type} {parse : Bytes → Except Fault Key}
  {decode : Key → Except Fault α} {encode : α → Except ε Bytes} {Plain : α → Prop}

/-- Reading never leaves the bytes, what is read is written as the bytes it came from, and comes
from no others. -/
structure Canonical (parse : Bytes → Except Fault Key) (decode : Key → Except Fault α)
    (encode : α → Except ε Bytes)
    (Plain : α → Prop) : Prop where
  safe : ∀ data, (parse data >>= decode)≠.error .panic
  encodes : ∀ data v, (parse data >>= decode) = .ok v → Plain v → encode v = .ok data
  injective : ∀ data data' v, (parse data >>= decode) = .ok v → (parse data' >>= decode) = .ok v →
    data = data'

lemma Canonical.of_avoids (code : α → Bytes)
    (h : ∀ data, Avoids .panic (parse data >>= decode) fun v => code v = data ∧
      (Plain v → encode v = .ok (code v))) :
    Canonical parse decode encode Plain where
  safe data := (h data).1
  encodes data v hv hplain := by
    obtain ⟨rfl,hencode⟩ := (h data).2 v hv
    exact hencode hplain
  injective data data' v hv hv' := ((h data).2 v hv).1.symm.trans ((h data').2 v hv').1

lemma canonical_scalar {kind : Kind} {read : Bytes → Field → Except Fault α} (code : α → Bytes)
    (kinds : List (Option Kind))
    (hread : ∀ data f, f.kind = some kind → validateField data f = .ok () →
      parseKey data [some kind] = .ok ⟨data,[f]⟩ →
      Avoids .panic (read data f) fun v => code v = piece data f ∧ encode v = .ok (code v)) :
    Canonical (parseKey · kinds) (decodeScalar kind read) encode fun _ => True := by
  refine .of_avoids code fun data => (parseKey_avoids data kinds).bind fun k hk hp =>
    decodeScalar_avoids fun f hf hkind hvalid => ?_
  obtain ⟨hdata,hbytes,hkinds⟩ := hp
  obtain ⟨d,fs⟩ := k
  obtain rfl : d = data := hdata
  obtain rfl : fs = [f] := hf
  obtain rfl : [f.kind] = kinds := hkinds
  rw [hkind] at hk
  rw [List.flatMap_singleton] at hbytes
  obtain ⟨hsafe,hv⟩ := hread d f hkind hvalid hk
  exact ⟨hsafe,fun v h => ⟨(hv v h).1.trans hbytes.symm,fun _ => (hv v h).2⟩⟩

lemma parseKey_string {data : Bytes} {f : Field}
    (h : parseKey data [some .string] = .ok ⟨data,[f]⟩) : 0 ∉ (piece data f).dropLast := by
  obtain ⟨⟨fs,e⟩,hfs,h⟩ := bind_eq_ok.mp h
  simp only at h
  split_ifs at h
  cases h
  rw [parseKeyFrom,sliceFrom,if_pos (Nat.zero_le _)] at hfs
  change (if 0 ∉ data then _ else _) = _ at hfs
  split_ifs at hfs with hmem
  cases hfs
  intro hzero
  rw [piece,List.drop_zero,List.dropLast_eq_take,List.length_take,List.take_take,
    List.mem_take_iff_idxOf_lt hmem] at hzero
  simp only at hzero
  omega

section Values
variable {data : Bytes} {f : Field} {v : Val} {vs : List Val} {fields : List Field}

def kindOf : Val → Option Kind
  | .uint64 _ => some .uint64
  | .int64 _ => some .int64
  | .string _ => some .string
  | .bytes _ => some .bytes
  | _ => none

lemma kindOf_fieldVal (h : fieldVal data f = some v) : kindOf v = f.kind := by
  obtain ⟨kind,offset,length⟩ := f
  cases kind with
  | none => cases h
  | some kind => cases kind <;> cases h <;> rfl

def frame (v : Val) : Bytes := appendLen4 (payload v).length++payload v

lemma frame_fieldVal (h : validateField data f = .ok ()) (hv : fieldVal data f = some v) :
    frame v = framed data f := by
  have hlength : (piece data f).length = f.length := by
    have hbound := (validateField_eq_ok.mp h).1
    rw [piece,List.length_take,List.length_drop]
    omega
  rw [frame,framed,payload_fieldVal h hv,hlength]

lemma encodeStorageComposite_eq (hkind : ∀ v ∈ vs, kindOf v≠none) (hplain : ∀ s, .string s ∈ vs → 0 ∉ s) :
    encodeStorageComposite vs = .ok (vs.flatMap frame) := by
  induction vs with
  | nil => rfl
  | cons v vs ih =>
    have hv : encodeField v = .ok (frame v) := by
      cases v with
      | uint64 | int64 => simp [encodeField,frame,payload]
      | string s => exact if_neg (hplain s (List.mem_cons_self ..))
      | bytes b => rfl
      | null | other => exact absurd rfl (hkind _ (List.mem_cons_self ..))
    rw [encodeStorageComposite,hv,ih (fun w hw => hkind w (List.mem_cons_of_mem _ hw)) fun s hs =>
      hplain s (List.mem_cons_of_mem _ hs)]
    rfl

def placed : List Val → ℕ → List Field
  | [],_ => []
  | v::vs,pos => ⟨kindOf v,pos,8⟩::placed vs (pos+8)

lemma encodeSortFrom_eq (h : ∀ v ∈ vs, Number (kindOf v)) (pos : ℕ) :
    encodeSortFrom vs pos = .ok (vs.flatMap payload,placed vs pos) := by
  induction vs generalizing pos with
  | nil => rfl
  | cons v vs ih =>
    have hv := h v (List.mem_cons_self ..)
    have hvs := ih (fun w hw => h w (List.mem_cons_of_mem _ hw)) (pos+8)
    cases v with
    | uint64 | int64 =>
      rw [encodeSortFrom,hvs]
      rfl
    | string | bytes | null | other => exact absurd hv (by simp [Number,kindOf])

lemma encodeSortComposite_eq (h : ∀ v ∈ vs, Number (kindOf v)) :
    encodeSortComposite vs = .ok ⟨vs.flatMap payload,placed vs 0⟩ := by
  rw [encodeSortComposite,encodeSortFrom_eq h]
  rfl

end Values

variable (kinds : List (Option Kind))

lemma canonical_uint64 :
    Canonical (parseKey · kinds) decodeUint64 (fun n =>
      (.ok (encodeUint64 n).data : Except Fault Bytes)) fun _ => True := by
  refine canonical_scalar be64 kinds fun data f hkind hvalid _ => ?_
  obtain ⟨hbound,hlength⟩ := validateField_eq_ok.mp hvalid
  rw [readNumber_eq hbound (hlength (.inl hkind))]
  exact .ok ⟨be64_piece hbound (hlength (.inl hkind)),rfl⟩

lemma canonical_int64 :
    Canonical (parseKey · kinds) decodeInt64 (fun i =>
      (.ok (encodeInt64 i).data : Except Fault Bytes)) fun _ => True := by
  refine canonical_scalar (fun i => be64 (i.toUInt64^^^signBit)) kinds fun data f hkind hvalid _ => ?_
  obtain ⟨hbound,hlength⟩ := validateField_eq_ok.mp hvalid
  rw [readSigned,readNumber_eq hbound (hlength (.inr hkind))]
  exact .ok ⟨be64_signed (be64_piece hbound (hlength (.inr hkind))),rfl⟩

lemma canonical_string :
    Canonical (parseKey · kinds) decodeString (fun s => (encodeString s).map Key.data) fun _ => True := by
  refine canonical_scalar (·++[0]) kinds fun data f hkind hvalid hparse => ?_
  rw [readString,readBytes_eq (validateField_eq_ok.mp hvalid).1]
  change Avoids _ (if _ then _ else _) _
  split_ifs with hlast
  · exact .error (by simp)
  · refine .ok ⟨List.dropLast_append_getLast? 0 (not_not.mp hlast),?_⟩
    rw [encodeString,if_neg (parseKey_string hparse)]
    rfl

lemma canonical_bytes :
    Canonical (parseKey · kinds) decodeBytes (fun b =>
      (.ok (encodeBytes b).data : Except Fault Bytes)) fun _ => True := by
  refine canonical_scalar id kinds fun data f hkind hvalid _ => ?_
  rw [readBytes_eq (validateField_eq_ok.mp hvalid).1]
  exact .ok ⟨rfl,rfl⟩

lemma canonical_sort :
    Canonical (parseKey · kinds) decodeSortComposite (fun vs =>
      (encodeSortComposite vs).map Key.data) fun _ => True := by
  refine .of_avoids (List.flatMap payload) fun data => (parseKey_avoids data kinds).bind fun k _ hp => ?_
  obtain ⟨rfl,hbytes,-⟩ := hp
  rw [decodeSortComposite]
  split_ifs
  · exact .error (by simp)
  · refine ⟨(Avoids.mapM fun _ => sortValue_avoids).1,fun vs hvs => ?_⟩
    have hreads := (Avoids.mapM fun _ => sortValue_avoids).2 vs hvs
    have hflat : vs.flatMap payload = k.fields.flatMap (piece k.data) :=
      forall₂_flatMap (hreads.imp fun f v h => payload_fieldVal h.2.1 h.2.2)
    refine ⟨hflat.trans hbytes.symm,fun _ => ?_⟩
    have hnumbers : ∀ v ∈ vs, Number (kindOf v) := by
      intro v hv
      obtain ⟨f,-,hnumber,-,hval⟩ := forall₂_mem hreads hv
      rwa [kindOf_fieldVal hval]
    rw [encodeSortComposite_eq hnumbers]
    rfl

lemma canonical_storage :
    Canonical (parseStorageCompositeKey · kinds) decodeStorageComposite encodeStorageComposite
      fun vs => ∀ s, .string s ∈ vs → 0 ∉ s := by
  refine .of_avoids (List.flatMap frame) fun data =>
    (parseStorageCompositeKey_avoids data kinds).bind fun k _ hp => ?_
  obtain ⟨rfl,hbytes⟩ := hp
  rw [decodeStorageComposite]
  split_ifs
  · exact .error (by simp)
  · refine ⟨(Avoids.mapM fun _ => storageValue_avoids).1,fun vs hvs => ?_⟩
    have hreads := (Avoids.mapM fun _ => storageValue_avoids).2 vs hvs
    have hflat : vs.flatMap frame = k.fields.flatMap (framed k.data) :=
      forall₂_flatMap (hreads.imp fun f v h => frame_fieldVal h.1 h.2)
    refine ⟨hflat.trans hbytes.symm,fun hplain => encodeStorageComposite_eq (fun v hv => ?_) hplain⟩
    obtain ⟨f,-,-,hval⟩ := forall₂_mem hreads hv
    rw [kindOf_fieldVal hval]
    intro hnone
    rw [fieldVal,hnone] at hval
    cases hval

/-- Every parser with its decoder is canonical, whatever the kinds. -/
theorem parsing_canonical (kinds : List (Option Kind)) :
    Canonical (parseKey · kinds) decodeUint64 (fun n =>
      (.ok (encodeUint64 n).data : Except Fault Bytes)) (fun _ => True) ∧
    Canonical (parseKey · kinds) decodeInt64 (fun i =>
      (.ok (encodeInt64 i).data : Except Fault Bytes)) (fun _ => True) ∧
    Canonical (parseKey · kinds) decodeString (fun s => (encodeString s).map Key.data) (fun _ => True) ∧
    Canonical (parseKey · kinds) decodeBytes (fun b =>
      (.ok (encodeBytes b).data : Except Fault Bytes)) (fun _ => True) ∧
    Canonical (parseKey · kinds) decodeSortComposite (fun vs =>
      (encodeSortComposite vs).map Key.data) (fun _ => True) ∧
    Canonical (parseStorageCompositeKey · kinds) decodeStorageComposite encodeStorageComposite
      (fun vs => ∀ s, .string s ∈ vs → 0 ∉ s) :=
  ⟨canonical_uint64 kinds,canonical_int64 kinds,canonical_string kinds,canonical_bytes kinds,
    canonical_sort kinds,canonical_storage kinds⟩

end Canonical

section Order
variable {kinds : List Kind} {a b : List Val} {v w : Val}

/-- The number a value of a sort key stands for. -/
def rank : Val → ℤ
  | .uint64 n => n.toNat
  | .int64 i => i.toInt
  | _ => 0

/-- The first position that differs decides. -/
def compareValues : List Val → List Val → ℤ
  | [],[] => 0
  | [],_::_ => -1
  | _::_,[] => 1
  | v::a,w::b => if rank v < rank w then -1 else if rank v = rank w then compareValues a b else 1

lemma xor_two_pow {n k : ℕ} (h : n < 2^k) : n^^^2^k = n+2^k := by
  have hor := Nat.two_pow_add_eq_or_of_lt h 1
  rw [mul_one] at hor
  rw [Nat.add_comm,hor]
  apply Nat.eq_of_testBit_eq
  intro i
  rw [Nat.testBit_xor,Nat.testBit_or,Nat.testBit_two_pow]
  by_cases hi : k = i
  · subst hi
    simp [Nat.testBit_lt_two_pow h]
  · simp [hi]

lemma toNat_xor_signBit (x : UInt64) : (x^^^signBit).toNat = if x.toNat < 2^63 then
    x.toNat+2^63 else x.toNat-2^63 := by
  rw [UInt64.toNat_xor]
  change x.toNat^^^2^63 = _
  split_ifs with h
  · exact xor_two_pow h
  · have hx := x.toNat_lt
    obtain ⟨y,hy⟩ : ∃ y, x.toNat = y+2^63 := ⟨x.toNat-2^63,by omega⟩
    rw [hy,Nat.add_sub_cancel,← xor_two_pow (show y < 2^63 by
      omega),Nat.xor_assoc,Nat.xor_self,Nat.xor_zero]

lemma toInt_eq (i : Int64) : i.toInt = if i.toUInt64.toNat < 2^63 then (i.toUInt64.toNat : ℤ) else
    i.toUInt64.toNat-2^64 := by
  rw [Int64.toInt,BitVec.toInt_eq_toNat_cond]
  change (if 2*i.toUInt64.toNat < 2^64 then (i.toUInt64.toNat : ℤ) else
    i.toUInt64.toNat-((2^64 : ℕ) : ℤ)) = _
  split_ifs <;> omega

lemma toNat_signed (i : Int64) : ((i.toUInt64^^^signBit).toNat : ℤ) = i.toInt+2^63 := by
  have hi := i.toUInt64.toNat_lt
  rw [toNat_xor_signBit,toInt_eq]
  split_ifs <;> omega

lemma number_cases (hv : v.Typed kind) (hw : w.Typed kind) (hkind : kind.Fixed) :
    ∃ m n : UInt64, payload v = be64 m ∧ payload w = be64 n ∧ (rank v < rank w ↔ m < n) ∧
      (rank v = rank w ↔ m = n) := by
  obtain rfl | rfl := hkind
  · cases v <;> cases w <;> try contradiction
    case uint64.uint64 m n =>
      exact ⟨m,n,rfl,rfl,by simp [rank,UInt64.lt_iff_toNat_lt],by simp [rank,UInt64.toNat_inj]⟩
  · cases v <;> cases w <;> try contradiction
    case int64.int64 i j =>
      have hi := toNat_signed i
      have hj := toNat_signed j
      refine ⟨_,_,rfl,rfl,?_,?_⟩
      · rw [UInt64.lt_iff_toNat_lt,rank,rank]
        omega
      · rw [← UInt64.toNat_inj,rank,rank]
        omega

lemma append_lt_append {a b c d : Bytes} (h : a.length = b.length) :
    a++c < b++d ↔ a < b ∨ a = b ∧ c < d := by
  induction a generalizing b with
  | nil =>
    obtain rfl : b = [] := List.length_eq_zero_iff.mp h.symm
    simp
  | cons x a ih =>
    cases b with
    | nil => cases h
    | cons y b =>
      rw [List.cons_append,List.cons_append,List.cons_lt_cons_iff,List.cons_lt_cons_iff,
        ih (Nat.succ.inj h),List.cons.injEq]
      tauto

lemma compareBytes_append {a b c d : Bytes} (h : a.length = b.length) :
    compareBytes (a++c) (b++d) = if a < b then -1 else if a = b then compareBytes c d else 1 := by
  have heq : a++c = b++d ↔ a = b ∧ c = d := ⟨fun he => List.append_inj he h,fun ⟨ha,hc⟩ => by rw [ha,hc]⟩
  simp only [compareBytes,append_lt_append h,heq]
  by_cases ha : a = b
  · simp [ha]
  · simp [ha]

lemma compareBytes_payload (hfixed : ∀ kind ∈ kinds, kind.Fixed)
    (ha : kinds.Forall₂ (fun k v => v.Typed k) a)
    (hb : kinds.Forall₂ (fun k v => v.Typed k) b) :
    compareBytes (a.flatMap payload) (b.flatMap payload) = compareValues a b := by
  induction ha generalizing b with
  | nil =>
    cases hb
    rfl
  | cons hv _ ih =>
    obtain _ | ⟨hw,hb⟩ := hb
    obtain ⟨m,n,hm,hn,hlt,heq⟩ := number_cases hv hw (hfixed _ (List.mem_cons_self ..))
    rw [List.flatMap_cons,List.flatMap_cons,compareBytes_append (by rw [hm,hn,be64_length,be64_length]),
      ih (fun k hk => hfixed k (List.mem_cons_of_mem _ hk)) hb,hm,hn,compareValues]
    have hbe : be64 m = be64 n ↔ m = n := ⟨be64_injective,congrArg be64⟩
    simp only [be64_lt_iff,hbe,hlt,heq]

lemma typed_iff {kind : Kind} : v.Typed kind ↔ kindOf v = some kind := by
  cases kind <;> cases v <;> simp [Val.Typed,kindOf]

lemma number_of_typed (hfixed : ∀ kind ∈ kinds, kind.Fixed) (ha : kinds.Forall₂ (fun k v => v.Typed k) a) :
    (∀ v ∈ a, Number (kindOf v)) ∧ a.map kindOf = kinds.map some := by
  induction ha with
  | nil => exact ⟨nofun,rfl⟩
  | @cons kind v kinds a hv _ ih =>
    obtain ⟨hnumber,hmap⟩ := ih fun k hk => hfixed k (List.mem_cons_of_mem _ hk)
    have hkind := typed_iff.mp hv
    have hv : Number (kindOf v) := by
      rw [hkind]
      exact (hfixed kind (List.mem_cons_self ..)).imp (congrArg some) (congrArg some)
    exact ⟨List.forall_mem_cons.mpr ⟨hv,hnumber⟩,by rw [List.map_cons,List.map_cons,hkind,hmap]⟩

lemma payload_length (h : Number (kindOf v)) : (payload v).length = 8 := by
  cases v with
  | uint64 | int64 => exact be64_length _
  | string | bytes | null | other => exact absurd h (by simp [Number,kindOf])

lemma sortValue_placed (h : Number (kindOf v)) (c d : Bytes) :
    sortValue (c++payload v++d) ⟨kindOf v,c.length,8⟩ = .ok v := by
  have hlength := payload_length h
  have hpiece : piece (c++payload v++d) ⟨kindOf v,c.length,8⟩ = payload v := by
    rw [piece,List.append_assoc,List.drop_left,← hlength,List.take_left]
  have hvalid : validateField (c++payload v++d) ⟨kindOf v,c.length,8⟩ = .ok () := by
    refine validateField_eq_ok.mpr ⟨?_,fun _ => rfl⟩
    simp only [List.length_append,hlength]
    omega
  rw [sortValue_eq,if_pos h,storageValue_eq hvalid,fieldVal,hpiece]
  cases v with
  | uint64 n => simp only [kindOf,payload,getUint64_be64]
  | int64 i =>
    simp only [kindOf,payload,getUint64_be64,xor_signBit]
    rfl
  | string | bytes | null | other => exact absurd h (by simp [Number,kindOf])

lemma mapM_placed (h : ∀ v ∈ a, Number (kindOf v)) (c : Bytes) :
    (placed a c.length).mapM (sortValue (c++a.flatMap payload)) = .ok a := by
  induction a generalizing c with
  | nil => rfl
  | cons v a ih =>
    have hnumber := h v (List.mem_cons_self ..)
    have hv := sortValue_placed hnumber c (a.flatMap payload)
    have hlength : (c++payload v).length = c.length+8 := by rw [List.length_append,payload_length hnumber]
    have ha := ih (fun w hw => h w (List.mem_cons_of_mem _ hw)) (c++payload v)
    rw [hlength] at ha
    rw [placed,List.mapM_cons,List.flatMap_cons,← List.append_assoc,hv,ha]
    rfl

lemma parseKeyFrom_placed (h : ∀ v ∈ a, Number (kindOf v)) {data : Bytes} (pos : ℕ)
    (hlen : pos+8*a.length ≤ data.length) :
    parseKeyFrom data (a.map kindOf) pos = .ok (placed a pos,pos+8*a.length) := by
  induction a generalizing pos with
  | nil => rfl
  | cons v a ih =>
    rw [List.length_cons] at hlen
    have ha := ih (fun w hw => h w (List.mem_cons_of_mem _ hw)) (pos+8) (by omega)
    have hnot : ¬ data.length < pos+8 := by omega
    obtain hv | hv := h v (List.mem_cons_self ..)
    all_goals
      rw [List.map_cons,hv,parseKeyFrom,if_neg hnot,ha,placed,hv,List.length_cons,Nat.mul_succ,
        Nat.add_assoc,Nat.add_comm 8]
      rfl

lemma length_flatMap_payload (h : ∀ v ∈ a, Number (kindOf v)) :
    (a.flatMap payload).length = 8*a.length := by
  induction a with
  | nil => rfl
  | cons v a ih =>
    rw [List.flatMap_cons,List.length_append,payload_length (h v (List.mem_cons_self ..)),
      ih fun w hw => h w (List.mem_cons_of_mem _ hw),
      List.length_cons]
    omega

lemma placed_ne_nil (h : a≠[]) : placed a 0≠[] := by
  cases a with
  | nil => exact absurd rfl h
  | cons => nofun

lemma decodeSortComposite_encode (hne : a≠[]) (h : ∀ v ∈ a, Number (kindOf v)) :
    decodeSortComposite ⟨a.flatMap payload,placed a 0⟩ = .ok a := by
  rw [decodeSortComposite,if_neg (placed_ne_nil hne)]
  exact mapM_placed h []

lemma parseKey_encode (hne : a≠[]) (h : ∀ v ∈ a, Number (kindOf v)) :
    parseKey (a.flatMap payload) (a.map kindOf) = .ok ⟨a.flatMap payload,placed a 0⟩ := by
  have hlen := length_flatMap_payload h
  rw [parseKey,if_neg (by simpa using hne),parseKeyFrom_placed h 0 (by omega)]
  exact if_neg fun hend => hend.1 (by omega)

lemma append_zero_lt {s t : Bytes} (hs : 0 ∉ s) (ht : 0 ∉ t) : s++[0] < t++[0] ↔ s < t := by
  induction s generalizing t with
  | nil =>
    cases t with
    | nil => simp
    | cons y t =>
      have hy : (0 : UInt8) < y := UInt8.pos_iff_ne_zero.mpr fun h => ht (h ▸ List.mem_cons_self ..)
      simp [List.cons_lt_cons_iff,hy]
  | cons x s ih =>
    cases t with
    | nil =>
      have hx : x≠0 := fun h => hs (h ▸ List.mem_cons_self ..)
      simp [List.cons_lt_cons_iff,hx]
    | cons y t =>
      rw [List.cons_append,List.cons_append,List.cons_lt_cons_iff,List.cons_lt_cons_iff,
        ih (fun h => hs (List.mem_cons_of_mem _ h)) fun h => ht (List.mem_cons_of_mem _ h)]

/-- Sort keys are ordered as the tuples they are made of and read back as them; the keys of texts
are ordered as the texts. -/
theorem sort_keys_ordered (kinds : List Kind) (hne : kinds≠[]) (hfixed : ∀ kind ∈ kinds, kind.Fixed) :
    (∀ a b : List Val, kinds.Forall₂ (fun k v => v.Typed k) a → kinds.Forall₂ (fun k v => v.Typed k) b →
      ∃ ka kb, encodeSortComposite a = .ok ka ∧ encodeSortComposite b = .ok kb ∧
        ka.compare kb = compareValues a b ∧
        decodeSortComposite ka = .ok a ∧
          (parseKey ka.data (kinds.map some) >>= decodeSortComposite) = .ok a) ∧
    ∀ s t : Bytes, 0 ∉ s → 0 ∉ t → ∃ ks kt, encodeString s = .ok ks ∧ encodeString t = .ok kt ∧
      ks.compare kt = compareBytes s t := by
  refine ⟨fun a b ha hb => ?_,fun s t hs ht => ?_⟩
  · obtain ⟨hna,hkinds⟩ := number_of_typed hfixed ha
    have hnil : a≠[] := by
      rintro rfl
      exact hne (by simpa using hkinds.symm)
    have hdecode := decodeSortComposite_encode hnil hna
    refine ⟨_,_,encodeSortComposite_eq hna,encodeSortComposite_eq (number_of_typed hfixed hb).1,
      compareBytes_payload hfixed ha hb,hdecode,?_⟩
    rw [← hkinds,parseKey_encode hnil hna]
    exact hdecode
  · refine ⟨_,_,if_neg hs,if_neg ht,?_⟩
    simp only [Key.compare,compareBytes,append_zero_lt hs ht,List.append_left_inj]

theorem sort_keys_ordered_signed :
    ([Kind.int64]≠[] ∧ ∀ kind ∈ [Kind.int64], kind.Fixed) ∧
      ∃ ka kb, encodeSortComposite [.int64 (-1)] = .ok ka ∧
        encodeSortComposite [.int64 1] = .ok kb ∧ ka.compare kb = -1 := by
  have hfixed : ∀ kind ∈ [Kind.int64], kind.Fixed := by simp [Kind.Fixed]
  refine ⟨⟨List.cons_ne_nil _ _,hfixed⟩,?_⟩
  obtain ⟨ka,kb,ha,hb,hcompare,-⟩ := (sort_keys_ordered [.int64] (List.cons_ne_nil _ _) hfixed).1
    [.int64 (-1)] [.int64 1] (by simp [Val.Typed]) (by simp [Val.Typed])
  exact ⟨ka,kb,ha,hb,hcompare⟩

end Order

end Plomvix.SQL.SortKey
