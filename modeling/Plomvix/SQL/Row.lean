import Plomvix.SQL.Key

/-! Table schemas and the row values of the heap: a flag byte, a bit mask of the NULL columns and
the other columns as a storage composite. What is encoded is read back. -/
namespace Plomvix.SQL
open Lib

/-- A value of a row. `other` is any Go value that no column can hold. -/
inductive Val
  | null
  | uint64 (n : UInt64)
  | int64 (i : Int64)
  | string (s : Bytes)
  | bytes (b : Bytes)
  | other
  deriving DecidableEq

/-- A column of a heap schema. -/
structure Column where
  name : String
  kind : Kind
  deriving DecidableEq

/-- The schema of a heap, with its primary key. -/
structure Schema where
  tableID : UInt64
  columns : List Column
  pkIndices : List ℤ
  deriving DecidableEq

def openTable (schema : Schema) : Except Err Unit :=
  if schema.columns = [] then .error .invalidSchema
  else if schema.pkIndices = [] then .error .invalidSchema
  else if ∃ idx ∈ schema.pkIndices, idx < 0 ∨ schema.columns.length ≤ idx then .error .invalidSchema
  else if ¬(schema.columns.map Column.name).Nodup then .error .invalidSchema
  else .ok ()

/-- A schema that `OpenTable` accepts. -/
structure Table extends Schema where
  accepted : openTable toSchema = .ok ()
  deriving DecidableEq

def anyToPrimitive : Kind → Val → Except Err Val
  | _,.null => .ok .null
  | .uint64,.uint64 n => .ok (.uint64 n)
  | .int64,.int64 i => .ok (.int64 i)
  | .string,.string s => .ok (.string s)
  | .bytes,.bytes b => .ok (.bytes b)
  | _,_ => .error .typeMismatch

def anyToKeyValue : Kind → Val → Except Err KeyValue
  | _,.null => .error .nullNotSupported
  | .uint64,.uint64 n => .ok (.uint64 n)
  | .int64,.int64 i => .ok (.int64 i)
  | .string,.string s => .ok (.string s)
  | .bytes,.bytes b => .ok (.bytes b)
  | _,_ => .error .typeMismatch

/-- The length of a field is cut to 32 bits. -/
def appendLen4 (n : ℕ) : Bytes := beBytes 4 n

def encodeField : Val → Except Err Bytes
  | .uint64 n => .ok (appendLen4 8++be64 n)
  | .int64 i => .ok (appendLen4 8++be64 (i.toUInt64^^^signBit))
  | .string s => if 0 ∈ s then .error .nullByteInString else .ok (appendLen4 s.length++s)
  | .bytes b => .ok (appendLen4 b.length++b)
  | _ => .error .unsupportedType

def encodeStorageComposite : List Val → Except Err Bytes
  | [] => .ok []
  | v::vs =>
    match encodeField v with
    | .error e => .error e
    | .ok b =>
      match encodeStorageComposite vs with
      | .error e => .error e
      | .ok r => .ok (b++r)

def parseFields : List Kind → Bytes → Except Err (List (Kind × Bytes))
  | [],rest => if rest≠[] then .error .invalidKey else .ok []
  | kind::kinds,rest =>
    if rest.length < 4 then .error .invalidKey
    else if (rest.drop 4).length < beNat (rest.take 4) then .error .invalidKey
    else match parseFields kinds ((rest.drop 4).drop (beNat (rest.take 4))) with
      | .error e => .error e
      | .ok fs => .ok ((kind,(rest.drop 4).take (beNat (rest.take 4)))::fs)

def parseStorageCompositeKey (data : Bytes) (kinds : List Kind) : Except Err (List (Kind × Bytes)) :=
  if kinds = [] then .error .invalidKey else parseFields kinds data

def decodeField : Kind × Bytes → Except Err Val
  | (.uint64,b) => if b.length≠8 then .error .invalidKey else .ok (.uint64 (getUint64 b))
  | (.int64,b) => if b.length≠8 then .error .invalidKey else .ok (.int64 (getUint64 b^^^signBit).toInt64)
  | (.string,b) => .ok (.string b)
  | (.bytes,b) => .ok (.bytes b)

def decodeFields : List (Kind × Bytes) → Except Err (List Val)
  | [] => .ok []
  | f::fs =>
    match decodeField f with
    | .error e => .error e
    | .ok v =>
      match decodeFields fs with
      | .error e => .error e
      | .ok vs => .ok (v::vs)

def decodeStorageComposite (fields : List (Kind × Bytes)) : Except Err (List Val) :=
  if fields = [] then .error .notComposite else decodeFields fields

def flagNormal : UInt8 := 0x00
def flagTombstone : UInt8 := 0x01

def bitOf (i : ℕ) : UInt8 := 1 <<< UInt8.ofNat (i%8)

def setNullBit (mask : Bytes) (i : ℕ) : Bytes := mask.modify (i/8) (· ||| bitOf i)

def nullBit (mask : Bytes) (i : ℕ) : Bool := mask.getD (i/8) 0 &&& bitOf i != 0

/-- The loop over the columns from the `i`-th on: NULLs go to the mask, the rest to the composite. -/
def splitNulls : ℕ → Bytes → List (Kind × Val) → Except Err (Bytes × List Val)
  | _,mask,[] => .ok (mask,[])
  | i,mask,(kind,v)::rest =>
    if v = .null then splitNulls (i+1) (setNullBit mask i) rest
    else match anyToPrimitive kind v with
      | .error e => .error e
      | .ok p =>
        match splitNulls (i+1) mask rest with
        | .error e => .error e
        | .ok (mask,ps) => .ok (mask,p::ps)

def Schema.kinds (schema : Schema) : List Kind := schema.columns.map Column.kind

def bitmaskLen (schema : Schema) : ℕ := (schema.columns.length+7)/8

/-- `none` stands for a nil slice of values. -/
def encodeEnterpriseValue (schema : Schema) (values : Option (List Val)) (flags : UInt8) :
    Except Err Bytes :=
  let values := match values with
    | some vs => vs
    | none => if flags = flagTombstone then List.replicate schema.columns.length .null else []
  if values.length≠schema.columns.length then .error .columnCountMismatch
  else match splitNulls 0 (List.replicate (bitmaskLen schema) 0) (schema.kinds.zip values) with
    | .error e => .error e
    | .ok (bitmask,nonNullPrimitives) =>
      match encodeStorageComposite nonNullPrimitives with
      | .error e => .error e
      | .ok composite => .ok (flags::bitmask++composite)

def nullFlags (mask : Bytes) (n : ℕ) : List Bool := (List.range n).map (nullBit mask)

def nonNullKinds : List Bool → List Kind → List Kind
  | false::bs,kind::kinds => kind::nonNullKinds bs kinds
  | true::bs,_::kinds => nonNullKinds bs kinds
  | _,_ => []

def restoreNulls : List Bool → List Val → Except Err (List Val)
  | [],_ => .ok []
  | true::bs,vs =>
    match restoreNulls bs vs with
    | .error e => .error e
    | .ok r => .ok (.null::r)
  | false::_,[] => .error (.text "heap: value decode mismatch")
  | false::bs,v::vs =>
    match restoreNulls bs vs with
    | .error e => .error e
    | .ok r => .ok (v::r)

def unknownFlags (flags : UInt8) : String :=
  "heap: unknown row flags 0x"++String.ofList (Nat.toDigits 16 flags.toNat)

def decodePayload (payload : Bytes) (kinds : List Kind) : Except Err (List Val) :=
  if payload≠[] ∧ kinds≠[] then
    match parseStorageCompositeKey payload kinds with
    | .error e => .error (.wrap "heap: %w" e)
    | .ok fields => (decodeStorageComposite fields).mapError (.wrap "heap: %w")
  else .ok []

/-- The values, and whether the row is a tombstone; a tombstone has no values. -/
def decodeEnterpriseValue (schema : Schema) (data : Bytes) : Except Err (List Val × Bool) :=
  match data with
  | [] => .error (.text "heap: value too short")
  | flags::rest =>
    if flags≠flagNormal ∧ flags≠flagTombstone then .error (.text (unknownFlags flags))
    else if rest.length < bitmaskLen schema then .error (.text "heap: value truncated at bitmask")
    else if flags = flagTombstone then .ok ([],true)
    else
      let nulls := nullFlags (rest.take (bitmaskLen schema)) schema.columns.length
      let payload := rest.drop (bitmaskLen schema)
      let kinds := nonNullKinds nulls schema.kinds
      match decodePayload payload kinds with
      | .error e => .error e
      | .ok vs =>
        match restoreNulls nulls vs with
        | .error e => .error e
        | .ok values => .ok (values,false)

/-- The type of the value is that of the column. -/
def Val.Typed : Kind → Val → Prop
  | .uint64,.uint64 _ => True
  | .int64,.int64 _ => True
  | .string,.string _ => True
  | .bytes,.bytes _ => True
  | _,_ => False

section Fields
variable {kind : Kind} {v : Val} {vs : List Val} {b : Bytes}

instance (kind : Kind) (v : Val) : Decidable (v.Typed kind) := by
  cases kind <;> cases v <;> first | exact instDecidableTrue | exact instDecidableFalse

lemma anyToPrimitive_eq (hv : v≠.null) (p : Val) : anyToPrimitive kind v = .ok p ↔ v.Typed kind ∧
      p = v := by
  cases kind <;> cases v <;> simp [anyToPrimitive,Val.Typed,eq_comm] at hv ⊢

/-- The bytes of a text or of a byte string. -/
def Val.size : Val → ℕ
  | .string s => s.length
  | .bytes b => b.length
  | _ => 0

lemma size_le_encodeField (h : encodeField v = .ok b) : v.size ≤ b.length := by
  cases v with
  | string s =>
    rw [encodeField] at h
    split at h
    · cases h
    · cases h
      simp [Val.size]
  | bytes c =>
    cases h
    simp [Val.size]
  | _ => exact Nat.zero_le _

lemma encodeStorageComposite_cons (h : encodeStorageComposite (v::vs) = .ok b) :
    ∃ c r, encodeField v = .ok c ∧ encodeStorageComposite vs = .ok r ∧ b = c++r := by
  rw [encodeStorageComposite] at h
  split at h
  · cases h
  rename_i c hc
  split at h
  · cases h
  rename_i r hr
  exact ⟨c,r,hc,hr,(Except.ok.inj h).symm⟩

lemma size_le_encode (h : encodeStorageComposite vs = .ok b) : ∀ v ∈ vs, v.size ≤ b.length := by
  induction vs generalizing b with
  | nil => simp
  | cons v vs ih =>
    obtain ⟨c,r,hf,hr,rfl⟩ := encodeStorageComposite_cons h
    rw [List.length_append]
    intro x hx
    obtain rfl | hx := List.mem_cons.mp hx
    · exact (size_le_encodeField hf).trans (Nat.le_add_right ..)
    · exact (ih hr x hx).trans (Nat.le_add_left ..)

lemma parse_encodeField (ht : v.Typed kind) (h : encodeField v = .ok b) (hlen : v.size < 2^32) :
    ∃ n f, b = appendLen4 n++f ∧ f.length = n ∧ n < 2^32 ∧ decodeField (kind,f) = .ok v := by
  have hnum : ∀ x : UInt64, getUint64 (be64 x) = x := fun x => by
    have := getUint64_append x []
    rwa [List.append_nil] at this
  cases kind <;> cases v <;> try cases ht
  · cases h
    exact ⟨8,_,rfl,be64_length _,by norm_num,by simp [decodeField,hnum]⟩
  · cases h
    exact ⟨8,_,rfl,be64_length _,by norm_num,by simp [decodeField,hnum]⟩
  · rename_i s
    rw [encodeField] at h
    split at h
    · cases h
    · cases h
      exact ⟨_,_,rfl,rfl,hlen,rfl⟩
  · cases h
    exact ⟨_,_,rfl,rfl,hlen,rfl⟩

theorem parse_encodeStorageComposite {kinds : List Kind}
    (ht : List.Forall₂ (fun k v => v.Typed k) kinds vs)
    (h : encodeStorageComposite vs = .ok b) (hlen : ∀ v ∈ vs, v.size < 2^32) :
    ∃ fs, parseFields kinds b = .ok fs ∧ decodeFields fs = .ok vs ∧ fs.length = vs.length := by
  induction ht generalizing b with
  | nil =>
    cases h
    exact ⟨[],rfl,rfl,rfl⟩
  | @cons kind v kinds vs hv _ ih =>
    obtain ⟨c,r,hf,hr,rfl⟩ := encodeStorageComposite_cons h
    obtain ⟨n,f,rfl,rfl,hn,hd⟩ := parse_encodeField hv hf (hlen v (List.mem_cons_self ..))
    obtain ⟨fs,hp,hds,hl⟩ := ih hr fun x hx => hlen x (List.mem_cons_of_mem _ hx)
    have h4 : (appendLen4 f.length).length = 4 := beBytes_length ..
    have htake : (appendLen4 f.length++f++r).take 4 = appendLen4 f.length := by
      rw [List.append_assoc,List.take_left' h4]
    have hdrop : (appendLen4 f.length++f++r).drop 4 = f++r := by
      rw [List.append_assoc,List.drop_left' h4]
    have hnum : beNat (appendLen4 f.length) = f.length := beNat_beBytes hn
    refine ⟨(kind,f)::fs,?_,?_,by simp [hl]⟩
    · rw [parseFields,if_neg (by simp [h4]),htake,hdrop,hnum,if_neg (by simp),List.drop_left,
        List.take_left,hp]
    · rw [decodeFields,hd]
      simp only
      rw [hds]

lemma encodeField_ok_iff (ht : v.Typed kind) : (∃ b, encodeField v = .ok b) ↔ ∀ s, .string s = v →
      0 ∉ s := by
  cases kind <;> cases v <;> try cases ht
  · simp [encodeField]
  · simp [encodeField]
  · rename_i s
    by_cases hs : 0 ∈ s
    · simp [encodeField,hs]
    · simp [encodeField,hs]
  · simp [encodeField]

theorem encodeStorageComposite_ok_iff {kinds : List Kind}
    (ht : List.Forall₂ (fun k v => v.Typed k) kinds vs) :
    (∃ b, encodeStorageComposite vs = .ok b) ↔ ∀ s, .string s ∈ vs → 0 ∉ s := by
  induction ht with
  | nil => simp [encodeStorageComposite]
  | @cons kind v kinds vs hv _ ih =>
    simp only [List.mem_cons,or_imp,forall_and]
    rw [← encodeField_ok_iff hv,← ih,encodeStorageComposite]
    cases encodeField v with
    | error e => simp
    | ok c => cases encodeStorageComposite vs <;> simp

lemma decodePayload_encode {kinds : List Kind} (ht : List.Forall₂ (fun k v => v.Typed k) kinds vs)
    (h : encodeStorageComposite vs = .ok b) (hlen : ∀ v ∈ vs, v.size < 2^32) :
    decodePayload b kinds = .ok vs := by
  obtain ⟨fs,hp,hd,hl⟩ := parse_encodeStorageComposite ht h hlen
  cases ht with
  | nil => simp [decodePayload]
  | @cons kind v kinds vs hv hvs =>
    have hb : b≠[] := by
      rintro rfl
      simp [parseFields] at hp
    have hfs : fs≠[] := by
      rintro rfl
      simp at hl
    rw [decodePayload,if_pos ⟨hb,List.cons_ne_nil _ _⟩,parseStorageCompositeKey,
      if_neg (List.cons_ne_nil _ _),hp]
    simp only
    rw [decodeStorageComposite,if_neg hfs,hd]
    rfl

end Fields

section Mask

lemma bit_or_and : ∀ x : Fin 256, ∀ a b : Fin 8,
    ((UInt8.ofFin x ||| bitOf a.val) &&& bitOf b.val != 0) =
      ((UInt8.ofFin x &&& bitOf b.val != 0) || decide (a = b)) := by
  decide +kernel

lemma nullBit_set {mask : Bytes} {i : ℕ} (hi : i/8 < mask.length) (j : ℕ) :
    nullBit (setNullBit mask i) j = (nullBit mask j || decide (i = j)) := by
  unfold nullBit setNullBit
  by_cases hq : i/8 = j/8
  · have hj : j/8 < mask.length := hq ▸ hi
    have hget : (mask.modify (i/8) (· ||| bitOf i)).getD (j/8) 0 = mask.getD (j/8) 0 ||| bitOf i := by
      simp [List.getD_eq_getElem?_getD,hq,List.getElem?_eq_getElem hj]
    have hbit := bit_or_and (mask.getD (j/8) 0).toFin ⟨i%8,Nat.mod_lt _ (by norm_num)⟩ ⟨j%8,
      Nat.mod_lt _ (by norm_num)⟩
    have hmod : ∀ n, bitOf (n%8) = bitOf n := fun n => by simp [bitOf]
    have hij : i = j ↔ i%8 = j%8 := by omega
    rw [hget]
    simpa [hmod,hij] using hbit
  · have hget : (mask.modify (i/8) (· ||| bitOf i)).getD (j/8) 0 = mask.getD (j/8) 0 := by
      simp [List.getD_eq_getElem?_getD,hq]
    have hne : i≠j := fun he => hq (he ▸ rfl)
    rw [hget]
    simp [hne]

lemma setNullBit_length (mask : Bytes) (i : ℕ) : (setNullBit mask i).length = mask.length :=
  List.length_modify ..

lemma nullBit_zero (n i : ℕ) : nullBit (List.replicate n 0) i = false := by
  simp [nullBit]

def nullsOf (values : List Val) : List Bool := values.map fun v => decide (v = .null)

def nonNulls (values : List Val) : List Val := values.filter fun v => !decide (v = .null)

/-- The mask after the columns from the `i`-th on. -/
def setNulls : ℕ → Bytes → List Bool → Bytes
  | _,mask,[] => mask
  | i,mask,b::bs => setNulls (i+1) (if b then setNullBit mask i else mask) bs

lemma setNulls_length (i : ℕ) (mask : Bytes) (bs : List Bool) :
    (setNulls i mask bs).length = mask.length := by
  induction bs generalizing i mask with
  | nil => rfl
  | cons b bs ih =>
    rw [setNulls,ih]
    split
    · exact setNullBit_length ..
    · rfl

lemma nullBit_setNulls {i : ℕ} {mask : Bytes} {bs : List Bool}
    (hlen : (i+bs.length+7)/8 ≤ mask.length) (j : ℕ) :
    nullBit (setNulls i mask bs) j = (nullBit mask j || (decide (i ≤ j) && bs.getD (j-i) false)) := by
  induction bs generalizing i mask with
  | nil => simp [setNulls]
  | cons b bs ih =>
    rw [List.length_cons] at hlen
    have hone : nullBit (if b then setNullBit mask i else mask) j =
      (nullBit mask j || (decide (i = j) && b)) := by
      cases b with
      | false => simp
      | true => simp [nullBit_set (show i/8 < mask.length by omega)]
    have hmask : (if b then setNullBit mask i else mask).length = mask.length := by
      split
      · exact setNullBit_length ..
      · rfl
    rw [setNulls,ih (by rw [hmask]; omega),hone]
    obtain hlt | rfl | hgt := lt_trichotomy i j
    · obtain ⟨d,rfl⟩ : ∃ d, j = i+1+d := ⟨j-(i+1),by omega⟩
      have h1 : i+1+d-i = d+1 := by omega
      have h2 : i≠i+1+d := by omega
      have h3 : i ≤ i+1+d := by omega
      simp [h1,h2,h3]
    · simp
    · have h1 : ¬i ≤ j := by omega
      have h2 : i≠j := by omega
      have h3 : ¬i+1 ≤ j := by omega
      simp [h1,h2,h3]

lemma nullFlags_setNulls {n : ℕ} {bs : List Bool} (hlen : (bs.length+7)/8 ≤ n) :
    nullFlags (setNulls 0 (List.replicate n 0) bs) bs.length = bs := by
  apply List.ext_getElem
  · simp [nullFlags]
  · intro j h1 h2
    simp only [nullFlags,List.getElem_map,List.getElem_range]
    rw [nullBit_setNulls (by simpa using hlen),nullBit_zero]
    simp [List.getElem?_eq_getElem h2]

end Mask

/-- A value that a column may hold: NULL, or one of its type. -/
def Val.Admitted (kind : Kind) (v : Val) : Prop := v = .null ∨ v.Typed kind

section Loop
variable {kvs : List (Kind × Val)}

lemma splitNulls_ok (h : ∀ kv ∈ kvs, kv.2.Admitted kv.1) (i : ℕ) (mask : Bytes) :
    splitNulls i mask kvs = .ok (setNulls i mask (nullsOf (kvs.map Prod.snd)),
      nonNulls (kvs.map Prod.snd)) := by
  induction kvs generalizing i mask with
  | nil => rfl
  | cons kv kvs ih =>
    obtain ⟨kind,v⟩ := kv
    have hrest := fun i mask => ih (fun x hx => h x (List.mem_cons_of_mem _ hx)) i mask
    rw [splitNulls]
    by_cases hv : v = .null
    · subst hv
      rw [if_pos rfl,hrest]
      simp [setNulls,nullsOf,nonNulls]
    · have ht := (h (kind,v) (List.mem_cons_self ..)).resolve_left hv
      rw [if_neg hv,(anyToPrimitive_eq hv v).mpr ⟨ht,rfl⟩]
      simp only
      rw [hrest]
      simp [setNulls,nullsOf,nonNulls,hv]

lemma splitNulls_admitted {i : ℕ} {mask : Bytes} {r : Bytes × List Val}
    (h : splitNulls i mask kvs = .ok r) :
    ∀ kv ∈ kvs, kv.2.Admitted kv.1 := by
  induction kvs generalizing i mask r with
  | nil => exact fun kv hm => absurd hm List.not_mem_nil
  | cons kv kvs ih =>
    obtain ⟨kind,v⟩ := kv
    rw [splitNulls] at h
    intro x hx
    split at h
    · rename_i hv
      exact (List.mem_cons.mp hx).elim (fun he => he ▸ .inl hv) (ih h x)
    · rename_i hv
      split at h
      · cases h
      rename_i p hp
      split at h
      · cases h
      rename_i hs
      refine (List.mem_cons.mp hx).elim (fun he => he ▸ .inr ?_) (ih hs x)
      exact ((anyToPrimitive_eq hv p).mp hp).1

lemma nonNull_forall₂ {kinds : List Kind} {values : List Val} (hlen : kinds.length = values.length)
    {P : Kind → Val → Prop} (h : ∀ kv ∈ kinds.zip values, kv.2 = .null ∨ P kv.1 kv.2) :
    List.Forall₂ P (nonNullKinds (nullsOf values) kinds) (nonNulls values) := by
  induction kinds generalizing values with
  | nil =>
    obtain rfl : values = [] := List.length_eq_zero_iff.mp hlen.symm
    exact .nil
  | cons kind kinds ih =>
    cases values with
    | nil => simp at hlen
    | cons v values =>
      have hrest := ih (by simpa using hlen) fun kv hm => h kv (List.mem_cons_of_mem _ hm)
      by_cases hv : v = .null
      · simpa [nullsOf,nonNulls,nonNullKinds,hv] using hrest
      · have hP := (h (kind,v) (List.mem_cons_self ..)).resolve_left hv
        simpa [nullsOf,nonNulls,nonNullKinds,hv] using ⟨hP,hrest⟩

lemma restoreNulls_split (values : List Val) :
    restoreNulls (nullsOf values) (nonNulls values) = .ok values := by
  induction values with
  | nil => rfl
  | cons v values ih =>
    rw [nullsOf,List.map_cons,nonNulls,← nullsOf]
    by_cases hv : v = .null
    · rw [List.filter_cons_of_neg (by simp [hv]),decide_eq_true hv,restoreNulls,← nonNulls,ih,hv]
    · rw [List.filter_cons_of_pos (by simp [hv]),decide_eq_false hv,restoreNulls,← nonNulls,ih]

end Loop

section Value
variable {schema : Schema} {values : List Val} {data : Bytes}

/-- A row that the columns of a schema can hold. -/
structure Schema.Fits (schema : Schema) (values : List Val) : Prop where
  length : values.length = schema.columns.length
  admitted : ∀ kv ∈ schema.kinds.zip values, kv.2.Admitted kv.1

lemma Schema.Fits.kinds_length (h : schema.Fits values) : schema.kinds.length = values.length := by
  rw [Schema.kinds,List.length_map,h.length]

lemma Schema.Fits.typed (h : schema.Fits values) :
    List.Forall₂ (fun k v => v.Typed k) (nonNullKinds (nullsOf values) schema.kinds) (nonNulls values) :=
  nonNull_forall₂ h.kinds_length h.admitted

lemma encodeEnterpriseValue_fits (h : schema.Fits values) :
    encodeEnterpriseValue schema (some values) flagNormal =
      match encodeStorageComposite (nonNulls values) with
      | .error e => .error e
      | .ok composite =>
        .ok (flagNormal::setNulls 0 (List.replicate (bitmaskLen schema) 0)
          (nullsOf values)++composite) := by
  have hsnd : (schema.kinds.zip values).map Prod.snd = values := List.map_snd_zip h.kinds_length.ge
  unfold encodeEnterpriseValue
  simp only [h.length,ne_eq,not_true,if_false]
  rw [splitNulls_ok h.admitted,hsnd]

lemma fits_of_encode (h : encodeEnterpriseValue schema (some values) flagNormal = .ok data) :
    schema.Fits values := by
  rw [encodeEnterpriseValue] at h
  split at h
  · cases h
  · rename_i hlen
    cases hs : splitNulls 0 (List.replicate (bitmaskLen schema) 0) (schema.kinds.zip values) with
    | error e => simp [hs] at h
    | ok r => exact ⟨not_not.mp hlen,splitNulls_admitted hs⟩

lemma composite_of_encode (h : encodeEnterpriseValue schema (some values) flagNormal = .ok data) :
    ∃ c, encodeStorageComposite (nonNulls values) = .ok c ∧
      data = flagNormal::setNulls 0 (List.replicate (bitmaskLen schema) 0) (nullsOf values)++c := by
  rw [encodeEnterpriseValue_fits (fits_of_encode h)] at h
  split at h
  · cases h
  · rename_i c hc
    exact ⟨c,hc,(Except.ok.inj h).symm⟩

theorem encodeEnterpriseValue_ok_iff (schema : Schema) (values : List Val) :
    (∃ data, encodeEnterpriseValue schema (some values) flagNormal = .ok data) ↔
      schema.Fits values ∧ ∀ s, .string s ∈ values → 0 ∉ s := by
  have hfree (h : schema.Fits values) : (∃ b, encodeStorageComposite (nonNulls values) = .ok b) ↔
      ∀ s, .string s ∈ values → 0 ∉ s := by
    rw [encodeStorageComposite_ok_iff h.typed]
    simp [nonNulls]
  constructor
  · rintro ⟨data,h⟩
    have hfit := fits_of_encode h
    refine ⟨hfit,(hfree hfit).mp ?_⟩
    obtain ⟨c,hc,-⟩ := composite_of_encode h
    exact ⟨c,hc⟩
  · rintro ⟨hfit,h⟩
    obtain ⟨c,hc⟩ := (hfree hfit).mpr h
    rw [encodeEnterpriseValue_fits hfit,hc]
    exact ⟨_,rfl⟩

theorem decodeEnterpriseValue_of_size
    (h : encodeEnterpriseValue schema (some values) flagNormal = .ok data)
    (hlen : ∀ v ∈ values, v.size < 2^32) : decodeEnterpriseValue schema data = .ok (values,false) := by
  have hfit := fits_of_encode h
  obtain ⟨c,hc,rfl⟩ := composite_of_encode h
  have hmask : (setNulls 0 (List.replicate (bitmaskLen schema) 0) (nullsOf values)).length =
    bitmaskLen schema := by
    rw [setNulls_length,List.length_replicate]
  have hcols : schema.columns.length = (nullsOf values).length := by
    rw [nullsOf,List.length_map,hfit.length]
  have hflags : nullFlags (setNulls 0 (List.replicate (bitmaskLen schema) 0) (nullsOf values))
    schema.columns.length =
      nullsOf values := by
    rw [hcols]
    exact nullFlags_setNulls (by rw [bitmaskLen,hcols])
  have hpayload := decodePayload_encode hfit.typed hc fun v hv => hlen v (List.mem_of_mem_filter hv)
  rw [List.cons_append,decodeEnterpriseValue]
  simp only [ne_eq,not_true,false_and,if_false,List.length_append,hmask]
  rw [if_neg (by omega),if_neg (by decide),List.take_left' hmask,List.drop_left' hmask,hflags,hpayload]
  simp only [restoreNulls_split]

theorem decodeEnterpriseValue_encode (h : encodeEnterpriseValue schema (some values) flagNormal = .ok data)
    (hlen : data.length < 2^32) : decodeEnterpriseValue schema data = .ok (values,false) := by
  refine decodeEnterpriseValue_of_size h fun v hv => ?_
  obtain ⟨c,hc,rfl⟩ := composite_of_encode h
  rw [List.length_append] at hlen
  by_cases hnull : v = .null
  · subst hnull
    norm_num [Val.size]
  · have hsize := size_le_encode hc v (List.mem_filter.mpr ⟨hv,by simp [hnull]⟩)
    omega

theorem encodeEnterpriseValue_tombstone (schema : Schema) :
    ∃ data, encodeEnterpriseValue schema none flagTombstone = .ok data ∧
      decodeEnterpriseValue schema data = .ok ([],true) := by
  have hnull : ∀ kv ∈ schema.kinds.zip (List.replicate schema.columns.length Val.null),
    kv.2.Admitted kv.1 :=
    fun kv hm => .inl (List.eq_of_mem_replicate (List.of_mem_zip hm).2)
  have hnone : nonNulls ((schema.kinds.zip (List.replicate schema.columns.length Val.null)).map
    Prod.snd) = [] := by
    rw [List.map_snd_zip (by simp [Schema.kinds])]
    simp [nonNulls]
  refine ⟨flagTombstone::setNulls 0 (List.replicate (bitmaskLen schema) 0) (nullsOf
    ((schema.kinds.zip (List.replicate schema.columns.length Val.null)).map Prod.snd))++[],?_,?_⟩
  · unfold encodeEnterpriseValue
    simp only [List.length_replicate,ne_eq,not_true,if_false,if_true]
    rw [splitNulls_ok hnull,hnone]
    rfl
  · rw [List.append_nil,decodeEnterpriseValue,if_neg (by decide),if_neg (by simp [setNulls_length]),
      if_pos rfl]

/-- Rows and tombstones are read back under every schema. -/
theorem row_value_round_trip (schema : Schema) :
    (∀ values data, (∀ v ∈ values, v.size < 2^32) →
      encodeEnterpriseValue schema (some values) flagNormal = .ok data →
      decodeEnterpriseValue schema data = .ok (values,false)) ∧
    ∃ data, encodeEnterpriseValue schema none flagTombstone = .ok data ∧
      decodeEnterpriseValue schema data = .ok ([],true) := by
  constructor
  · intro values data hsize hencode
    exact decodeEnterpriseValue_of_size hencode hsize
  · exact encodeEnterpriseValue_tombstone schema

/-- A row with a NULL between a number and a text. -/
theorem row_value_round_trip_null :
    ∃ data, decodeEnterpriseValue ⟨1,[⟨"id",.uint64⟩,⟨"note",.bytes⟩,⟨"name",.string⟩],[0]⟩ data =
      .ok ([.uint64 7,.null,.string [97]],false) :=
  ⟨_,(row_value_round_trip _).1 [.uint64 7,.null,.string [97]] _ (by decide) rfl⟩

end Value
end Plomvix.SQL
