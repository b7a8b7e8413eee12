import Plomvix.Lib.ByteOrder

/-! Table row keys and storage composites, as `key.go` and `row.go` encode them. Without a
column of raw bytes, the code of a table and a primary key is prefix-free, and a scan from it
up to its `PrefixEnd` meets no row of another key. -/
namespace Plomvix.SQL
open Lib

/-- The kinds of key columns. -/
inductive Kind
  | uint64 | int64 | string | bytes
  deriving DecidableEq, Repr

/-- The sentinel errors of the key and heap packages, and the other errors by their texts; a wrapped
error has its format. -/
inductive Err
  | nullByteInString | unsupportedType | invalidKey | notComposite | truncated | badTag | noPKColumns
  | invalidSchema | columnCountMismatch | typeMismatch | nullNotSupported | duplicateKey | keyNotFound
  | txConflict | invalidTx | primaryKeyUpdate
  | store
  | text (s : String)
  | wrap (s : String) (e : Err)
  deriving DecidableEq, Repr

/-- A column value of a key; a string is its bytes. -/
inductive KeyValue
  | uint64 (n : UInt64)
  | int64 (i : Int64)
  | string (s : Bytes)
  | bytes (b : Bytes)
  deriving DecidableEq

def KeyValue.kind : KeyValue → Kind
  | .uint64 _ => .uint64
  | .int64 _ => .int64
  | .string _ => .string
  | .bytes _ => .bytes

def be64 (n : UInt64) : Bytes := beBytes 8 n.toNat

def getUint64 (b : Bytes) : UInt64 := UInt64.ofNat (beNat (b.take 8))

def signBit : UInt64 := 0x8000000000000000

def encodeColumn : KeyValue → Bytes
  | .uint64 n => be64 n
  | .int64 i => be64 (i.toUInt64^^^signBit)
  | .string s => s++[0]
  | .bytes b => b

def tableRowTag : UInt8 := 0x01

def tablePrefix (tableID : UInt64) : Bytes := tableRowTag::be64 tableID

/-- The code of a table and a key, without a version. -/
def rowCode (tableID : UInt64) (pk : List KeyValue) : Bytes := tablePrefix tableID++pk.flatMap encodeColumn

def encodeTableRowKey (tableID : UInt64) (pk : List KeyValue) (version : UInt64) : Except Err Bytes :=
  if pk = [] then .error .noPKColumns else .ok (rowCode tableID pk++be64 version)

def encodeTableRowPrefix (tableID : UInt64) (pk : List KeyValue) : Except Err Bytes :=
  if pk = [] then .error .noPKColumns else .ok (rowCode tableID pk)

/-- One column from the front of what is left; `last` says that no column follows. -/
def decodeColumn (last : Bool) (kind : Kind) (rest : Bytes) : Except Err (KeyValue × Bytes) :=
  if rest = [] then .error .truncated
  else match kind with
    | .uint64 =>
      if rest.length < 8 then .error .truncated else .ok (.uint64 (getUint64 rest),rest.drop 8)
    | .int64 =>
      if rest.length < 8 then .error .truncated
      else .ok (.int64 (getUint64 rest^^^signBit).toInt64,rest.drop 8)
    | .string =>
      if 0 ∈ rest then .ok (.string (rest.takeWhile (·≠0)),(rest.dropWhile (·≠0)).tail)
      else .error .truncated
    | .bytes =>
      if last = false then .error .invalidKey
      else if rest.length < 8 then .error .truncated
      else .ok (.bytes (rest.take (rest.length-8)),rest.drop (rest.length-8))

def decodeColumns : List Kind → Bytes → Except Err (List KeyValue × Bytes)
  | [],rest => .ok ([],rest)
  | kind::kinds,rest =>
    match decodeColumn kinds.isEmpty kind rest with
    | .error e => .error e
    | .ok (v,rest) =>
      match decodeColumns kinds rest with
      | .error e => .error e
      | .ok (vs,rest) => .ok (v::vs,rest)

def decodeTableRowKey (b : Bytes) (expectedKinds : List Kind) :
    Except Err (UInt64 × List KeyValue × UInt64) :=
  if b.length < 9 then .error .truncated
  else if b.headD 0≠tableRowTag then .error .badTag
  else match decodeColumns expectedKinds (b.drop 9) with
    | .error e => .error e
    | .ok (pk,rest) =>
      if rest.length≠8 then .error .truncated else .ok (getUint64 (b.drop 1),pk,getUint64 rest)

/-- One more, on the bytes from the last to the first. -/
def increment : Bytes → Bytes
  | [] => []
  | b::r => if b+1≠0 then (b+1)::r else 0::increment r

/-- The least bytes behind all that start so. -/
def prefixEnd (p : Bytes) : Option Bytes :=
  if ∀ b ∈ p, b = 255 then none else some (increment p.reverse).reverse

section Numbers

@[simp] lemma be64_length (n : UInt64) : (be64 n).length = 8 := beBytes_length ..

lemma getUint64_append (n : UInt64) (r : Bytes) : getUint64 (be64 n++r) = n := by
  rw [getUint64,List.take_append_of_le_length (be64_length n).ge,List.take_of_length_le (be64_length n).le,
    be64,beNat_beBytes n.toNat_lt]
  exact UInt64.ofNat_toNat

lemma be64_getUint64 {b : Bytes} (h : 8 ≤ b.length) : be64 (getUint64 b) = b.take 8 := by
  have hlen : (b.take 8).length = 8 := by simpa using h
  have hlt : beNat (b.take 8) < 2^64 := by
    have := beNat_lt (b.take 8)
    rwa [hlen] at this
  rw [be64,getUint64,UInt64.toNat_ofNat',Nat.mod_eq_of_lt hlt]
  have hb := beBytes_beNat (b.take 8)
  rwa [hlen] at hb

lemma be64_injective {m n : UInt64} (h : be64 m = be64 n) : m = n := by
  have hm := getUint64_append m []
  rw [h,getUint64_append] at hm
  exact hm.symm

lemma be64_lt_iff {m n : UInt64} : be64 m < be64 n ↔ m < n := by
  rw [be64,be64,beBytes_lt_iff m.toNat_lt n.toNat_lt,UInt64.lt_iff_toNat_lt]

lemma eq_zero_of_be64 {n : UInt64} {k : ℕ} (h : be64 n = List.replicate k 0) : n = 0 := by
  obtain rfl : 8 = k := by simpa using congrArg List.length h
  exact be64_injective (h.trans (by decide))

lemma xor_signBit (n : UInt64) : n^^^signBit^^^signBit = n := by
  rw [UInt64.xor_assoc,UInt64.xor_self,UInt64.xor_zero]

end Numbers

/-- A value that delimits itself: a number, or a string without the terminator. -/
def KeyValue.Delimited : KeyValue → Prop
  | .string s => 0 ∉ s
  | .bytes _ => False
  | _ => True

section Columns
variable {v : KeyValue} {pk pk' : List KeyValue} {kinds : List Kind} {b rest : Bytes}

lemma takeWhile_string {s : Bytes} (h : 0 ∉ s) (rest : Bytes) :
    (s++0::rest).takeWhile (·≠0) = s ∧ (s++0::rest).dropWhile (·≠0) = 0::rest := by
  have hs : ∀ x ∈ s, decide (x≠0) = true := fun x hx => decide_eq_true fun he => h (he ▸ hx)
  rw [List.takeWhile_append_of_pos hs,List.dropWhile_append_of_pos hs]
  simp

lemma decodeColumn_encode (h : v.Delimited) (last : Bool) (rest : Bytes) :
    decodeColumn last v.kind (encodeColumn v++rest) = .ok (v,rest) := by
  have hnum : ∀ n : UInt64, be64 n++rest≠[] ∧ ¬(be64 n++rest).length < 8 ∧
    (be64 n++rest).drop 8 = rest := by
    intro n
    have hl := be64_length n
    refine ⟨fun he => ?_,by simp,?_⟩
    · have := congrArg List.length he
      simp at this
    · rw [List.drop_append_of_le_length hl.ge,List.drop_of_length_le hl.le,List.nil_append]
  cases v with
  | uint64 n =>
    obtain ⟨h1,h2,h3⟩ := hnum n
    simp only [decodeColumn,KeyValue.kind,encodeColumn,if_neg h1,if_neg h2,h3,getUint64_append]
  | int64 i =>
    obtain ⟨h1,h2,h3⟩ := hnum (i.toUInt64^^^signBit)
    simp only [decodeColumn,KeyValue.kind,encodeColumn,if_neg h1,if_neg h2,h3,getUint64_append,xor_signBit]
    rfl
  | string s =>
    obtain ⟨h1,h2⟩ := takeWhile_string h rest
    have hcat : encodeColumn (.string s)++rest = s++0::rest := by simp [encodeColumn]
    have hne : s++0::rest≠[] := by simp
    have hmem : (0 : UInt8) ∈ s++0::rest := by simp
    rw [hcat]
    simp only [decodeColumn,KeyValue.kind,if_neg hne,if_pos hmem,h1,h2,List.tail_cons]
  | bytes b => cases h

lemma decodeColumns_encode (h : ∀ v ∈ pk, v.Delimited) (rest : Bytes) :
    decodeColumns (pk.map KeyValue.kind) (pk.flatMap encodeColumn++rest) = .ok (pk,rest) := by
  induction pk with
  | nil => rfl
  | cons v pk ih =>
    rw [List.map_cons,List.flatMap_cons,List.append_assoc,decodeColumns,
      decodeColumn_encode (h v (List.mem_cons_self ..))]
    simp only
    rw [ih fun x hx => h x (List.mem_cons_of_mem _ hx)]

lemma of_decodeColumn {last : Bool} {kind : Kind} (h : decodeColumn last kind b = .ok (v,rest)) :
    b = encodeColumn v++rest ∧ v.kind = kind ∧ (v.Delimited ∨ kind = .bytes ∧ last = true) := by
  unfold decodeColumn at h
  split at h
  · cases h
  cases kind with
  | uint64 =>
    simp only at h
    split at h
    · cases h
    obtain ⟨rfl,rfl⟩ := Prod.mk.inj (Except.ok.inj h)
    refine ⟨?_,rfl,.inl trivial⟩
    rw [encodeColumn,be64_getUint64 (not_lt.mp ‹_›),List.take_append_drop]
  | int64 =>
    simp only at h
    split at h
    · cases h
    obtain ⟨rfl,rfl⟩ := Prod.mk.inj (Except.ok.inj h)
    refine ⟨?_,rfl,.inl trivial⟩
    have hx : (getUint64 b^^^signBit).toInt64.toUInt64 = getUint64 b^^^signBit := rfl
    rw [encodeColumn,hx,xor_signBit,be64_getUint64 (not_lt.mp ‹_›),List.take_append_drop]
  | string =>
    simp only at h
    split at h
    · rename_i hz
      obtain ⟨rfl,rfl⟩ := Prod.mk.inj (Except.ok.inj h)
      refine ⟨?_,rfl,.inl fun hm => ?_⟩
      · have hne : b.dropWhile (·≠0)≠[] := fun he => by
          have := List.dropWhile_eq_nil_iff.mp he 0 hz
          simp at this
        obtain ⟨x,r,hx⟩ := List.exists_cons_of_ne_nil hne
        have h0 : x = 0 := by
          have hhead := List.head?_dropWhile_not (fun y : UInt8 => decide (y≠0)) b
          rw [hx] at hhead
          simpa using hhead
        have hb := List.takeWhile_append_dropWhile (p := fun y : UInt8 => decide (y≠0)) (l := b)
        rw [hx,h0] at hb
        simp only [encodeColumn,hx,List.tail_cons,List.append_assoc,List.singleton_append]
        exact hb.symm
      · have := List.mem_takeWhile_imp hm
        simp at this
    · cases h
  | bytes =>
    simp only at h
    split at h
    · cases h
    rename_i hl
    split at h
    · cases h
    obtain ⟨rfl,rfl⟩ := Prod.mk.inj (Except.ok.inj h)
    exact ⟨(List.take_append_drop ..).symm,rfl,.inr ⟨rfl,by simpa using hl⟩⟩

lemma decodeColumns_cons (h : decodeColumns (kind::kinds) b = .ok (pk,rest)) :
    ∃ v r vs, decodeColumn kinds.isEmpty kind b = .ok (v,r) ∧
      decodeColumns kinds r = .ok (vs,rest) ∧ pk = v::vs := by
  rw [decodeColumns] at h
  split at h
  · cases h
  rename_i v r hc
  split at h
  · cases h
  rename_i vs r' hd
  obtain ⟨rfl,rfl⟩ := Prod.mk.inj (Except.ok.inj h)
  exact ⟨v,r,vs,hc,hd,rfl⟩

lemma of_decodeColumns (h : decodeColumns kinds b = .ok (pk,rest)) :
    b = pk.flatMap encodeColumn++rest ∧ pk.map KeyValue.kind = kinds ∧ ∀ v ∈ pk, v.Delimited ∨
      v.kind = .bytes := by
  induction kinds generalizing b pk with
  | nil =>
    obtain ⟨rfl,rfl⟩ := Prod.mk.inj (Except.ok.inj h)
    exact ⟨rfl,rfl,nofun⟩
  | cons kind kinds ih =>
    obtain ⟨v,r,vs,hc,hd,rfl⟩ := decodeColumns_cons h
    obtain ⟨hb,hkind,hdel⟩ := of_decodeColumn hc
    obtain ⟨hr,hkinds,hdels⟩ := ih hd
    refine ⟨?_,by rw [List.map_cons,hkind,hkinds],fun x hx => ?_⟩
    · rw [hb,hr,List.flatMap_cons,List.append_assoc]
    · exact (List.mem_cons.mp hx).elim (fun he => he ▸ hdel.imp id fun h => hkind.trans h.1) (hdels x)

lemma decodeColumns_swap {r r' : Bytes} (hr' : r'.length = 8)
    (h : decodeColumns kinds (b++r) = .ok (pk,r)) : decodeColumns kinds (b++r') = .ok (pk,r') := by
  induction kinds generalizing b pk with
  | nil =>
    obtain ⟨rfl,hb⟩ := Prod.mk.inj (Except.ok.inj h)
    obtain rfl : b = [] := List.append_left_eq_self.mp hb
    rfl
  | cons kind kinds ih =>
    obtain ⟨v,s,vs,hc,hd,rfl⟩ := decodeColumns_cons h
    obtain ⟨hb,hkind,hdel⟩ := of_decodeColumn hc
    obtain ⟨hs,-,-⟩ := of_decodeColumns hd
    rw [hs] at hd
    have hnext := ih hd
    rw [hs,← List.append_assoc] at hb
    obtain rfl := List.append_cancel_right hb
    rw [decodeColumns,List.append_assoc]
    have hv : decodeColumn kinds.isEmpty kind (encodeColumn v++(vs.flatMap encodeColumn++r')) =
        .ok (v,vs.flatMap encodeColumn++r') := by
      obtain hv | ⟨rfl,hl⟩ := hdel
      · rw [← hkind]
        exact decodeColumn_encode hv ..
      · obtain rfl : kinds = [] := List.isEmpty_iff.mp hl
        obtain ⟨rfl,-⟩ := Prod.mk.inj (Except.ok.inj hd)
        cases v with
        | bytes c =>
          have hne : c++r'≠[] := fun he => by simp [(List.append_eq_nil_iff.mp he).2] at hr'
          simp [decodeColumn,encodeColumn,hr',List.append_eq_nil_iff.not.mp hne]
        | _ => cases hkind
    rw [hv]
    simp only
    rw [hnext]

end Columns

section RowKeys
variable {tableID tableID' version version' : UInt64} {pk pk' : List KeyValue} {kinds : List Kind}
  {k b : Bytes}

lemma tablePrefix_length (tableID : UInt64) : (tablePrefix tableID).length = 9 := by simp [tablePrefix]

lemma rowCode_append (tableID : UInt64) (pk : List KeyValue) (r : Bytes) :
    rowCode tableID pk++r = tableRowTag::(be64 tableID++(pk.flatMap encodeColumn++r)) := by
  simp [rowCode,tablePrefix]

/-- Whoever reads the two codes cannot tell them apart before they end. -/
theorem rowCode_prefix_free (h : ∀ v ∈ pk, v.Delimited) (h' : ∀ v ∈ pk', v.Delimited)
    (hk : pk.map KeyValue.kind = pk'.map KeyValue.kind) {r r' : Bytes}
    (he : rowCode tableID pk++r = rowCode tableID' pk'++r') : tableID = tableID' ∧ pk = pk' ∧ r = r' := by
  rw [rowCode_append,rowCode_append] at he
  obtain ⟨hid,hrest⟩ := List.append_inj (List.cons.inj he).2 (by simp)
  have h1 := decodeColumns_encode h r
  rw [hrest,hk,decodeColumns_encode h'] at h1
  obtain ⟨hpk,hr⟩ := Prod.mk.inj (Except.ok.inj h1)
  exact ⟨be64_injective hid,hpk.symm,hr.symm⟩

lemma decodeTableRowKey_row (tableID : UInt64) (pk : List KeyValue) (version : UInt64)
    (kinds : List Kind) :
    decodeTableRowKey (rowCode tableID pk++be64 version) kinds =
      match decodeColumns kinds (pk.flatMap encodeColumn++be64 version) with
      | .error e => .error e
      | .ok (pk,rest) => if rest.length≠8 then .error .truncated else .ok (tableID,pk,getUint64 rest) := by
  have hlen : ¬(rowCode tableID pk++be64 version).length < 9 := by
    rw [rowCode_append]
    simp
  have hdrop : (rowCode tableID pk++be64 version).drop 9 = pk.flatMap encodeColumn++be64 version := by
    rw [rowCode,List.append_assoc,List.drop_append_of_le_length (tablePrefix_length tableID).ge,
      List.drop_of_length_le (tablePrefix_length tableID).le,List.nil_append]
  have hid : getUint64 ((rowCode tableID pk++be64 version).drop 1) = tableID := by
    rw [rowCode_append]
    exact getUint64_append tableID _
  rw [decodeTableRowKey,if_neg hlen,if_neg (by rw [rowCode_append]; simp),hdrop,hid]

lemma getUint64_be64 (n : UInt64) : getUint64 (be64 n) = n := by
  have := getUint64_append n []
  rwa [List.append_nil] at this

theorem decodeTableRowKey_encode (h : ∀ v ∈ pk, v.Delimited) :
    decodeTableRowKey (rowCode tableID pk++be64 version) (pk.map KeyValue.kind) =
      .ok (tableID,pk,version) := by
  rw [decodeTableRowKey_row,decodeColumns_encode h]
  simp only
  rw [if_neg (by simp),getUint64_be64]

theorem of_decodeTableRowKey (h : decodeTableRowKey b kinds = .ok (tableID,pk,version)) :
    b = rowCode tableID pk++be64 version ∧ pk.map KeyValue.kind = kinds ∧ ∀ v ∈ pk, v.Delimited ∨
      v.kind = .bytes := by
  unfold decodeTableRowKey at h
  split at h
  · cases h
  rename_i hlen
  split at h
  · cases h
  rename_i htag
  split at h
  · cases h
  rename_i vs rest hc
  split at h
  · cases h
  rename_i hrest
  obtain ⟨h1,h2⟩ := Prod.mk.inj (Except.ok.inj h)
  obtain ⟨rfl,rfl⟩ := Prod.mk.inj h2
  obtain ⟨hb,hkinds,hdel⟩ := of_decodeColumns hc
  refine ⟨?_,hkinds,hdel⟩
  cases b with
  | nil => simp at hlen
  | cons x b =>
    obtain rfl : x = tableRowTag := not_not.mp htag
    rw [List.drop_succ_cons,List.drop_zero] at h1
    rw [List.drop_succ_cons] at hb
    have hb8 : 8 ≤ b.length := by
      simp only [List.length_cons] at hlen
      omega
    have hr8 : rest.length = 8 := not_not.mp hrest
    rw [rowCode_append,← h1,be64_getUint64 hb8,be64_getUint64 hr8.ge,List.take_of_length_le hr8.le,← hb,
      List.take_append_drop]

theorem decodeTableRowKey_swap
    (h : decodeTableRowKey (rowCode tableID pk++be64 version) kinds = .ok (tableID',pk',version'))
    (v : UInt64) : decodeTableRowKey (rowCode tableID pk++be64 v) kinds = .ok (tableID,pk',v) ∧
      tableID' = tableID ∧ rowCode tableID' pk' = rowCode tableID pk ∧ version' = version := by
  obtain ⟨hb,-,-⟩ := of_decodeTableRowKey h
  obtain ⟨hcode,hver⟩ := List.append_inj' hb (by simp)
  obtain rfl := be64_injective hver
  have hid : tableID = tableID' := by
    rw [rowCode,rowCode] at hcode
    have hp := (List.append_inj hcode (by simp [tablePrefix_length])).1
    exact be64_injective (List.cons.inj hp).2
  subst hid
  refine ⟨?_,rfl,hcode.symm,rfl⟩
  rw [decodeTableRowKey_row] at h ⊢
  split at h
  · cases h
  · rename_i q rest hc
    split at h
    · cases h
    rename_i hrest
    obtain ⟨rfl,hv⟩ := Prod.mk.inj (Prod.mk.inj (Except.ok.inj h)).2
    obtain ⟨hq,-,-⟩ := of_decodeColumns hc
    obtain ⟨-,rfl⟩ := List.append_inj' hq (by simpa using (not_not.mp hrest).symm)
    rw [decodeColumns_swap (be64_length v) hc]
    simp only
    rw [if_neg (by simp),getUint64_be64]

/-- The row keys of `p` are read back, and no row key of another `q` begins with the code of `p`. -/
def KeptApart (tableID tableID' : UInt64) (p q : List KeyValue) : Prop :=
  (∀ v key, encodeTableRowKey tableID p v = .ok key →
    decodeTableRowKey key (p.map KeyValue.kind) = .ok (tableID,p,v)) ∧
  (p≠q → ∀ v key code, encodeTableRowKey tableID' q v = .ok key →
    encodeTableRowPrefix tableID p = .ok code → ¬ code <+: key)

/-- No two keys of these kinds run into each other. -/
def KeysSeparate (kinds : List Kind) : Prop :=
  ∀ (tableID tableID' : UInt64) (p q : List KeyValue), p.map KeyValue.kind = kinds →
    q.map KeyValue.kind = kinds → KeptApart tableID tableID' p q

/-- The kinds whose codes have one length. -/
def Kind.Fixed (kind : Kind) : Prop := kind = .uint64 ∨ kind = .int64

def Kind.zero : Kind → KeyValue
  | .uint64 => .uint64 0
  | .int64 => .int64 0
  | .string => .string []
  | .bytes => .bytes []

lemma map_kind_zero (kinds : List Kind) : (kinds.map Kind.zero).map KeyValue.kind = kinds := by
  rw [List.map_map]
  refine (List.map_congr_left fun kind _ => ?_).trans (List.map_id _)
  cases kind <;> rfl

lemma KeyValue.delimited_of_fixed {v : KeyValue} (h : v.kind.Fixed) : v.Delimited := by
  cases v with
  | uint64 | int64 => trivial
  | string | bytes => exact absurd h (by simp [KeyValue.kind,Kind.Fixed])

lemma of_encodeTableRowKey (h : encodeTableRowKey tableID pk version = .ok k) :
    k = rowCode tableID pk++be64 version := by
  rw [encodeTableRowKey] at h
  split at h <;> cases h
  rfl

lemma of_encodeTableRowPrefix (h : encodeTableRowPrefix tableID pk = .ok k) : k = rowCode tableID pk := by
  rw [encodeTableRowPrefix] at h
  split at h <;> cases h
  rfl

lemma separate_of_delimited {p q : List KeyValue} (hp : ∀ v ∈ p, v.Delimited) (hq : ∀ v ∈ q, v.Delimited)
    (hk : p.map KeyValue.kind = q.map KeyValue.kind) : KeptApart tableID tableID' p q := by
  constructor
  · intro v key h
    rw [of_encodeTableRowKey h]
    exact decodeTableRowKey_encode hp
  · intro hne v key code h hcode
    rw [of_encodeTableRowKey h,of_encodeTableRowPrefix hcode]
    rintro ⟨r,hr⟩
    exact hne (rowCode_prefix_free hp hq hk hr).2.1

/-- A text may hold the terminator, and bytes have none: what follows the column can be written into it. -/
lemma exists_overlap {kinds : List Kind} {kind : Kind} (hmem : kind ∈ kinds) (hkind : ¬ kind.Fixed) :
    ∃ p q : List KeyValue, p.map KeyValue.kind = kinds ∧ q.map KeyValue.kind = kinds ∧ p≠q ∧
      p.flatMap encodeColumn <+: q.flatMap encodeColumn := by
  obtain ⟨before,after,rfl⟩ := List.append_of_mem hmem
  refine ⟨(before++kind::after).map Kind.zero,?_⟩
  have hzero := map_kind_zero (before++kind::after)
  simp only [List.map_append,List.map_cons] at hzero ⊢
  set rest := (after.map Kind.zero).flatMap encodeColumn with hrest
  cases kind with
  | uint64 | int64 => exact absurd (by simp [Kind.Fixed]) hkind
  | string =>
    refine ⟨before.map Kind.zero++.string (0::rest)::after.map Kind.zero,hzero,
      by rwa [List.map_append,List.map_cons],?_,?_⟩
    · simp [Kind.zero]
    · simp [Kind.zero,encodeColumn,← hrest]
  | bytes =>
    refine ⟨before.map Kind.zero++.bytes (rest++[0])::after.map Kind.zero,hzero,
      by rwa [List.map_append,List.map_cons],?_,?_⟩
    · simp [Kind.zero]
    · simp [Kind.zero,encodeColumn,← hrest]

/-- Row keys keep all tuples apart exactly if every column is a number. Tuples without raw bytes and
without zero bytes in their texts are kept apart under all kinds. -/
theorem keys_separate_iff (kinds : List Kind) (hne : kinds≠[]) :
    (KeysSeparate kinds ↔ ∀ kind ∈ kinds, kind.Fixed) ∧
    ∀ (tableID tableID' : UInt64) (p q : List KeyValue), p.map KeyValue.kind = kinds →
      q.map KeyValue.kind = kinds →
      (∀ v ∈ p, v.Delimited) → (∀ v ∈ q, v.Delimited) → KeptApart tableID tableID' p q := by
  refine ⟨⟨fun h kind hmem => ?_,fun h tableID tableID' p q hp hq => ?_⟩,
    fun tableID tableID' p q hp hq hdp hdq => ?_⟩
  · by_contra hkind
    obtain ⟨p,q,hp,hq,hpq,hover⟩ := exists_overlap hmem hkind
    have hnil : ∀ {l : List KeyValue}, l.map KeyValue.kind = kinds → l≠[] :=
      fun hl hnil => hne (by simpa [hnil] using hl.symm)
    refine (h 0 0 p q hp hq).2 hpq 0 _ _ (if_neg (hnil hq)) (if_neg (hnil hp)) ?_
    obtain ⟨r,hr⟩ := hover
    exact ⟨r++be64 0,by rw [rowCode,rowCode,← hr]; simp⟩
  · have hfixed : ∀ {l : List KeyValue}, l.map KeyValue.kind = kinds → ∀ v ∈ l, v.Delimited := by
      intro l hl v hv
      exact KeyValue.delimited_of_fixed (h _ (hl ▸ List.mem_map_of_mem hv))
    exact separate_of_delimited (hfixed hp) (hfixed hq) (hp.trans hq.symm)
  · exact separate_of_delimited hdp hdq (hp.trans hq.symm)

theorem keys_separate_numbers : KeysSeparate [.uint64,.int64] :=
  (keys_separate_iff [.uint64,.int64] (by decide)).1.mpr (by simp [Kind.Fixed])

/-- The code of `x'01'` begins a row key of `x'0102'`, that of `a` one of a text with a zero byte,
and raw bytes before another column are not read back. -/
theorem keys_not_separate :
    (∃ code key, encodeTableRowPrefix 1 [.bytes [1]] = .ok code ∧
      encodeTableRowKey 1 [.bytes [1,2]] 5 = .ok key ∧ code <+: key) ∧
    (∃ code key, encodeTableRowPrefix 1 [.string [97]] = .ok code ∧
      encodeTableRowKey 1 [.string [97,0,98]] 5 = .ok key ∧ code <+: key) ∧
    ∃ key, encodeTableRowKey 1 [.bytes [1],.uint64 2] 5 = .ok key ∧
      decodeTableRowKey key [.bytes,.uint64] = .error .invalidKey :=
  ⟨⟨_,_,rfl,rfl,by decide⟩,⟨_,_,rfl,rfl,by decide⟩,⟨_,rfl,by decide⟩⟩

end RowKeys

section Range

lemma increment_eq {p : Bytes} (h : ¬∀ b ∈ p, b = 255) :
    ∃ n b a, p = List.replicate n 255++b::a ∧ b≠255 ∧ increment p = List.replicate n 0++(b+1)::a := by
  induction p with
  | nil => exact absurd (fun b hb => nomatch hb) h
  | cons b p ih =>
    by_cases hb : b = 255
    · obtain ⟨n,c,a,hp,hc,hi⟩ := ih fun hall => h fun x hx =>
        (List.mem_cons.mp hx).elim (fun he => he.trans hb) (hall x)
      refine ⟨n+1,c,a,by rw [hp,hb,List.replicate_succ,List.cons_append],hc,?_⟩
      have hz : ¬(b+1≠0) := by
        rw [hb]
        decide
      rw [increment,if_neg hz,hi,List.replicate_succ,List.cons_append]
    · have hz : b+1≠0 := fun he => hb (by
        have hback : b+1-1 = 0-1 := congrArg (·-1) he
        rw [UInt8.add_sub_cancel] at hback
        exact hback.trans (by decide))
      exact ⟨0,b,p,rfl,hb,by rw [increment,if_pos hz]; rfl⟩

theorem prefixEnd_eq {p : Bytes} (h : ¬∀ b ∈ p, b = 255) :
    ∃ a b n, p = a++b::List.replicate n 255 ∧ b≠255 ∧
      prefixEnd p = some (a++(b+1)::List.replicate n 0) := by
  obtain ⟨n,b,a,hp,hb,hi⟩ :=
    increment_eq (p := p.reverse) fun hall => h fun x hx => hall x (List.mem_reverse.mpr hx)
  refine ⟨a.reverse,b,n,?_,hb,?_⟩
  · rw [← List.reverse_reverse p,hp]
    simp
  · rw [prefixEnd,if_neg h,hi]
    simp

/-- The zeros that the carry leaves behind are too many: without them the bound is smaller. -/
theorem prefixEnd_least_iff (p : Bytes) :
    (if ∀ b ∈ p, b = 255 then prefixEnd p = none else ∃ e, prefixEnd p = some e ∧
      IsLeast {e | ∀ r, p++r < e} e) ↔
      (∀ b ∈ p, b = 255) ∨ p.getLast?≠some 255 := by
  by_cases hfull : ∀ b ∈ p, b = 255
  · rw [if_pos hfull]
    exact iff_of_true (if_pos hfull) (.inl hfull)
  rw [if_neg hfull,or_iff_right hfull]
  obtain ⟨a,b,n,hp,hb,he⟩ := prefixEnd_eq hfull
  simp only [he,Option.some.injEq,exists_eq_left']
  cases n with
  | zero =>
    refine iff_of_true ⟨fun r => hp ▸ append_lt_carry hb 0 r _,fun e habove => ?_⟩ (by simpa [hp] using hb)
    by_contra hlt
    have hlo : a++b::List.replicate 0 255 ≤ e := by simpa [hp] using (habove []).le
    obtain ⟨r,rfl⟩ | ⟨m,hm,-⟩ := mem_carry_interval hlo (not_le.mp hlt)
    · exact lt_irrefl _ (hp ▸ habove r)
    · exact absurd hm (Nat.not_lt_zero m)
  | succ n =>
    have hlast : p.getLast? = some 255 := by
      rw [hp,List.replicate_succ',← List.cons_append,← List.append_assoc,List.getLast?_concat]
    refine iff_of_false (fun hleast => ?_) (not_not.mpr hlast)
    have hless : a++(b+1)::List.replicate (n+1) 0 ≤ a++[b+1] :=
      hleast.2 fun r => hp ▸ append_lt_carry hb (n+1) r []
    have hmore : a++[b+1] < a++(b+1)::List.replicate (n+1) 0 := by
      simp [append_lt_append_iff,List.replicate_succ]
    exact hless.not_gt hmore

/-- Every string that begins with `01 FF` is below `02`, and `02` is below `02 00`. -/
theorem prefixEnd_not_least : prefixEnd [1,255] = some [2,0] ∧ (∀ r, [1,255]++r < ([2] : Bytes)) ∧
      ([2] : Bytes) < [2,0] :=
  ⟨rfl,fun r => append_lt_carry (a := []) (by decide) 1 r [],by decide⟩

variable {tableID tableID' version : UInt64} {pk pk' : List KeyValue} {k : Bytes}

lemma tablePrefix_not_full (tableID : UInt64) (r : Bytes) :
    ¬∀ b ∈ tablePrefix tableID++r, b = 255 := fun h =>
  absurd (h tableRowTag (List.mem_cons_self ..)) (by decide)

/-- Between the bounds of a scan over everything that begins with `p`. -/
def Within (p k : Bytes) : Prop := p ≤ k ∧ k < (prefixEnd p).getD []

lemma within_append (tableID : UInt64) (a r : Bytes) :
    Within (tablePrefix tableID++a) (tablePrefix tableID++a++r) := by
  obtain ⟨c,b,n,hp,hb,he⟩ := prefixEnd_eq (tablePrefix_not_full tableID a)
  unfold Within
  rw [he,hp]
  exact carry_interval_of_append hb n r

/-- A scan over a table meets, of the other tables, only what is too short to be a row. -/
theorem table_of_within (h : Within (tablePrefix tableID) k) (hlen : 9 ≤ k.length) :
    tablePrefix tableID <+: k := by
  have hfull := tablePrefix_not_full tableID []
  rw [List.append_nil] at hfull
  obtain ⟨a,b,n,hp,hb,he⟩ := prefixEnd_eq hfull
  unfold Within at h
  rw [he,hp] at h
  obtain hr | ⟨m,hm,hk⟩ := mem_carry_interval h.1 h.2
  · rwa [hp]
  · have h1 := congrArg List.length hp
    have h2 := congrArg List.length hk
    simp only [tablePrefix_length,List.length_append,List.length_cons,List.length_replicate] at h1 h2
    omega

/-- A row that a scan for a key meets is a row of this key; version 0 is never written. -/
theorem row_of_within (h : ∀ v ∈ pk, v.Delimited) (h' : ∀ v ∈ pk', v.Delimited)
    (hk : pk.map KeyValue.kind = pk'.map KeyValue.kind) (hv : version≠0)
    (hin : Within (rowCode tableID pk) (rowCode tableID' pk'++be64 version)) :
    tableID = tableID' ∧ pk = pk' := by
  obtain ⟨a,b,n,hp,hb,he⟩ := prefixEnd_eq (tablePrefix_not_full tableID (pk.flatMap encodeColumn))
  change rowCode tableID pk = _ at hp
  change prefixEnd (rowCode tableID pk) = _ at he
  unfold Within at hin
  rw [he,hp] at hin
  obtain ⟨r,hr⟩ | ⟨m,-,hm⟩ := mem_carry_interval hin.1 hin.2
  · rw [← hp] at hr
    obtain ⟨hid,hpk,-⟩ := rowCode_prefix_free h h' hk hr
    exact ⟨hid,hpk⟩
  · -- the row ends in zeros; the code cannot end before them, and the version is not zero
    by_cases hlen : (rowCode tableID' pk').length ≤ a.length
    · have hpre : rowCode tableID' pk' <+: a := by
        have h1 : rowCode tableID' pk' <+: a++(b+1)::List.replicate m 0 := ⟨be64 version,hm⟩
        exact List.prefix_of_prefix_length_le h1 (List.prefix_append ..) hlen
      obtain ⟨r,hr⟩ := hpre.trans (List.prefix_append a (b::List.replicate n 255))
      rw [← hp,← List.append_nil (rowCode tableID pk)] at hr
      obtain ⟨hid,hpk,-⟩ := rowCode_prefix_free h' h hk.symm hr
      exact ⟨hid.symm,hpk.symm⟩
    · have hdrop : be64 version = (List.replicate m 0).drop
        ((rowCode tableID' pk').length-(a.length+1)) := by
        have h1 := congrArg (List.drop (rowCode tableID' pk').length) hm
        have hshort : (a++[b+1]).length ≤ (rowCode tableID' pk').length := by
          rw [List.length_append,List.length_singleton]
          omega
        rwa [List.drop_left,List.append_cons,List.drop_append,List.drop_of_length_le hshort,
          List.nil_append,
          List.length_append,List.length_singleton] at h1
      rw [List.drop_replicate] at hdrop
      exact absurd (eq_zero_of_be64 hdrop) hv

end Range
end Plomvix.SQL
