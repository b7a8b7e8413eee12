import Plomvix.Engine.Schema
import Plomvix.Lib.Fallible

/-! The payload of a schema read back. Counts and lengths are kept in two bytes; longer ones are
cut, without an error. -/
namespace Plomvix.Engine
open Lib Fallible

/-- The value is of the Go type that goes with the type. -/
def Datum.Typed (d : Datum) : Prop :=
  match d.typ,d.value with
  | .null,.nil | .int64,.int64 _ | .uint64,.uint64 _ | .float64,.float64 _ | .bool,
      .bool _ | .string,.string _ | .bytes,.bytes _ => True
  | .other _,_ => True
  | _,_ => False

/-- The seven types have one name each. -/
def Typ.Proper (t : Typ) : Prop := Typ.ofCode t.code = t

/-- The type is one of the seven and the default is of its own type. -/
def Column.Proper (col : Column) : Prop := col.typ.Proper ∧ ∀ d ∈ col.defaultValue, d.Typed

def Value.size : Value → ℕ
  | .string s => s.length
  | .bytes b => b.length
  | _ => 0

/-- The lengths fit in two bytes each. -/
def Column.Short (col : Column) : Prop :=
  col.name.length < 2^16 ∧ ∀ d ∈ col.defaultValue, d.value.size < 2^16

/-- All lengths and counts fit in their two bytes. -/
def Schema.Short (s : Schema) : Prop := s.columns.length < 2^16 ∧ ∀ col ∈ s.columns, col.Short

section Counted
variable {s : Bytes}

lemma putUint16_length (n : ℕ) : (putUint16 n).length = 2 := beBytes_length ..

lemma take_putUint16 {n : ℕ} (h : n < 2^16) (b : Bytes) : beNat ((putUint16 n++b).take 2) = n := by
  rw [← putUint16_length n,List.take_left]
  exact beNat_beBytes (h.trans_eq (by norm_num))

lemma drop_putUint16 (n : ℕ) (b : Bytes) : (putUint16 n++b).drop 2 = b := by
  rw [← putUint16_length n,List.drop_left]

lemma counted_cut (h : s.length < 2^16) (rest : Bytes) {p : Bytes}
    (hp : p = putUint16 s.length++(s++rest)) :
    ¬ p.length < 2 ∧ ¬ (p.drop 2).length < beNat (p.take 2) ∧ (p.drop 2).take (beNat (p.take 2)) = s ∧
      (p.drop 2).drop (beNat (p.take 2)) = rest ∧ beNat (p.take 2) = s.length := by
  subst hp
  rw [take_putUint16 h,drop_putUint16,List.take_left,List.drop_left,List.length_append,
    List.length_append,putUint16_length]
  exact ⟨by omega,by omega,rfl,rfl,rfl⟩

lemma beNat_take_lt (b : Bytes) : beNat (b.take 2) < 2^16 := by
  calc beNat (b.take 2) < 256^(b.take 2).length := beNat_lt _
    _ ≤ 256^2 := Nat.pow_le_pow_right (by norm_num) (List.length_take_le ..)
    _ = 2^16 := by norm_num

end Counted

section Defaults
variable {d : Datum} {b : Bytes}

lemma decodeDatum_encode (hd : d.Typed) (hsize : d.value.size < 2^16) (h : encodeDatum d = .ok b)
    (rest : Bytes) :
    decodeDatum (b++rest) = .ok (d,b.length) := by
  obtain ⟨typ,value⟩ := d
  cases typ <;> cases value <;> try exact hd.elim
  all_goals cases h
  case null.nil => rfl
  case bool.bool v => cases v <;> rfl
  case int64.int64 | uint64.uint64 | float64.float64 =>
    simp [decodeDatum,Typ.code,Typ.ofCode,SQL.getUint64_append]
  case string.string s | bytes.bytes s =>
    obtain ⟨hlen,hin,htake,-,hnum⟩ := counted_cut hsize rest rfl
    have hcode : Typ.ofCode 5 = .string ∧ Typ.ofCode 6 = .bytes := ⟨rfl,rfl⟩
    simp only [decodeDatum,Typ.code,List.cons_append,List.append_assoc,hcode]
    rw [if_neg hlen,if_neg hin,htake,hnum,List.length_cons,List.length_append,putUint16_length,
      Nat.add_comm 2,Nat.add_comm 3]

lemma size_of_decodeDatum {n : ℕ} (h : decodeDatum b = .ok (d,n)) : d.value.size < 2^16 := by
  cases b with
  | nil => cases h
  | cons code rest =>
    have hcut : ((rest.drop 2).take (beNat (rest.take 2))).length < 2^16 :=
      (List.length_take_le ..).trans_lt (beNat_take_lt rest)
    simp only [decodeDatum] at h
    split at h
    case h_4 =>
      split at h <;> cases h
      exact Nat.two_pow_pos 16
    all_goals try split_ifs at h
    all_goals cases h
    all_goals first | exact hcut | exact Nat.two_pow_pos 16

end Defaults

section Columns
variable {col : Column} {cols : List Column} {b : Bytes}

lemma flag_bits (notNull hasDefault : Bool) :
    let flags := (if notNull then flagNotNull else 0) ||| (if hasDefault then flagHasDefault else 0)
    (flags &&& flagNotNull != 0) = notNull ∧ (flags &&& flagHasDefault != 0) = hasDefault := by
  cases notNull <;> cases hasDefault <;> decide

lemma decodeColumns_succ {p : Bytes} (name rest : Bytes) (code flags : UInt8) (n i : ℕ)
    (hname : name.length < 2^16)
    (hp : p = putUint16 name.length++(name++code::flags::rest)) :
    decodeColumns (n+1) i p =
      if flags &&& flagHasDefault != 0 then
        match decodeDatum rest with
        | .error e => .error (.wrap "schema: default value for column %q: %w" e [name])
        | .ok (dv,used) => do
          return ⟨name,Typ.ofCode code,flags &&& flagNotNull != 0,
            some dv⟩::(← decodeColumns n (i+1) (rest.drop used))
      else do return ⟨name,Typ.ofCode code,flags &&& flagNotNull != 0,
        none⟩::(← decodeColumns n (i+1) rest) := by
  obtain ⟨hlen,hin,htake,hdrop,-⟩ := counted_cut hname _ hp
  rw [decodeColumns,if_neg hlen]
  simp only
  rewrite [if_neg hin,htake,hdrop]
  rfl

lemma decodeColumns_cons (hproper : col.Proper) (hshort : col.Short) (h : encodeColumn col = .ok b)
    (n i : ℕ) (rest : Bytes) :
    decodeColumns (n+1) i (b++rest) = do return col::(← decodeColumns n (i+1) rest) := by
  obtain ⟨name,typ,notNull,defaultValue⟩ := col
  obtain ⟨hnotNull,hdefault⟩ := flag_bits notNull defaultValue.isSome
  have htyp : Typ.ofCode typ.code = typ := hproper.1
  simp only [encodeColumn] at h
  generalize ((if notNull then flagNotNull else 0) ||| (if defaultValue.isSome then
    flagHasDefault else 0)) = flags at h hnotNull hdefault
  cases defaultValue with
  | none =>
    cases h
    rw [decodeColumns_succ name rest typ.code flags n i hshort.1 (by simp),hdefault,hnotNull,htyp]
    rfl
  | some d =>
    obtain ⟨e,he,rfl⟩ := map_eq_ok.mp h
    have hd := decodeDatum_encode (hproper.2 d rfl) (hshort.2 d rfl) he rest
    rw [decodeColumns_succ name (e++rest) typ.code flags n i hshort.1 (by simp),hdefault,hnotNull,htyp,hd]
    simp

lemma decodeColumns_encode (hproper : ∀ col ∈ cols, col.Proper) (hshort : ∀ col ∈ cols, col.Short)
    (h : encodeColumns cols = .ok b) (i : ℕ) :
    decodeColumns cols.length i b = .ok cols := by
  induction cols generalizing i b with
  | nil => rfl
  | cons col cols ih =>
    obtain ⟨c,hc,h⟩ := bind_eq_ok.mp h
    obtain ⟨r,hr,h⟩ := bind_eq_ok.mp h
    obtain rfl := pure_eq_ok.mp h
    obtain ⟨hp,hproper⟩ := List.forall_mem_cons.mp hproper
    obtain ⟨hs,hshort⟩ := List.forall_mem_cons.mp hshort
    rw [List.length_cons,decodeColumns_cons hp hs hc,ih hproper hshort hr]
    rfl

lemma decodeColumns_short {n i : ℕ} (h : decodeColumns n i b = .ok cols) :
    cols.length = n ∧ ∀ col ∈ cols, col.Short := by
  induction n generalizing i b cols with
  | zero =>
    cases h
    exact ⟨rfl,nofun⟩
  | succ n ih =>
    have hname : ((b.drop 2).take (beNat (b.take 2))).length < 2^16 :=
      (List.length_take_le ..).trans_lt (beNat_take_lt b)
    have hnext {r : Bytes} {col : Column} (hcol : col.Short)
      (h : (do return col::(← decodeColumns n (i+1) r)) = Except.ok cols) :
        cols.length = n+1 ∧ ∀ col ∈ cols, col.Short := by
      obtain ⟨rest,hrest,h⟩ := bind_eq_ok.mp h
      obtain rfl := pure_eq_ok.mp h
      obtain ⟨hlen,hall⟩ := ih hrest
      exact ⟨congrArg (·+1) hlen,List.forall_mem_cons.mpr ⟨hcol,hall⟩⟩
    rw [decodeColumns] at h
    split_ifs at h
    simp only at h
    split_ifs at h
    split at h
    · cases h
    · exact hnext ⟨hname,by simp⟩ h
    · split_ifs at h
      · split at h
        · cases h
        · rename_i hd
          exact hnext ⟨hname,by simpa using size_of_decodeDatum hd⟩ h
      · exact hnext ⟨hname,by simp⟩ h

end Columns

/-- A schema is read back exactly if the number of its columns, their names and the texts and bytes
of their defaults fit two bytes. -/
theorem schema_round_trip_iff (s : Schema) (hproper : ∀ col ∈ s.columns, col.Proper) {b : Bytes}
    (h : s.encode = .ok b) :
    Schema.decode b = .ok s ↔ s.Short := by
  obtain ⟨c,hc,h⟩ := bind_eq_ok.mp h
  obtain rfl := pure_eq_ok.mp h
  have hlen : ¬ (putUint16 s.columns.length++c).length < 2 := by
    rw [List.length_append,putUint16_length]
    omega
  rw [Schema.decode,if_neg hlen]
  constructor
  · intro h
    obtain ⟨cols,hcols,rfl⟩ := map_eq_ok.mp h
    obtain ⟨hcount,hshort⟩ := decodeColumns_short hcols
    exact ⟨hcount.trans_lt (beNat_take_lt _),hshort⟩
  · intro hshort
    rw [take_putUint16 hshort.1,drop_putUint16,decodeColumns_encode hproper hshort.2 hc]
    rfl

theorem schema_round_trip_users :
    ∃ b, Schema.encode ⟨[⟨[105,100],.int64,true,none⟩,
      ⟨[110],.string,false,some ⟨.string,.string [120]⟩⟩]⟩ = .ok b ∧
      Schema.decode b = .ok ⟨[⟨[105,100],.int64,true,none⟩,
        ⟨[110],.string,false,some ⟨.string,.string [120]⟩⟩]⟩ := by
  refine ⟨_,rfl,(schema_round_trip_iff _ ?_ rfl).mpr ?_⟩
  · refine List.forall_mem_cons.mpr ⟨⟨rfl,by simp⟩,List.forall_mem_singleton.mpr ⟨rfl,fun d hd => ?_⟩⟩
    obtain rfl := Option.mem_some.mp hd
    trivial
  · simp [Schema.Short,Column.Short,Value.size]

/-- A name of 65536 bytes is written with the length 0 and read back as an empty one; what it begins
with becomes the type and the flags of the column. -/
lemma decode_long_name {name : Bytes} (tail : Bytes) {x y : UInt8} (hname : name = x::y::tail)
    (hlen : name.length = 2^16) (hy : y &&& flagHasDefault = 0) :
    ∃ b, Schema.encode ⟨[⟨name,.int64,false,none⟩]⟩ = .ok b ∧
      Schema.decode b = .ok ⟨[⟨[],Typ.ofCode x,y &&& flagNotNull != 0,none⟩]⟩ := by
  have hcut : putUint16 name.length = putUint16 ([] : Bytes).length := by
    rw [hlen]
    decide
  have hlength (r : Bytes) : ¬ (putUint16 1++r).length < 2 := by
    rw [List.length_append,putUint16_length]
    omega
  have hb : Schema.encode ⟨[⟨name,.int64,false,none⟩]⟩ =
    .ok (putUint16 1++(putUint16 name.length++name++[Typ.int64.code,0])) := by
    simp [Schema.encode,encodeColumns,encodeColumn,bind,Except.bind,pure,Except.pure]
  refine ⟨_,hb,?_⟩
  rw [Schema.decode,if_neg (hlength _),take_putUint16 (by decide),drop_putUint16,
    decodeColumns_succ [] (tail++[Typ.int64.code,0]) x y 0 0 (by decide) (by rw [hcut,hname]; simp),hy]
  rfl

theorem schema_name_cut :
    ∃ b, Schema.encode ⟨[⟨List.replicate 65536 97,.int64,false,none⟩]⟩ = .ok b ∧
      Schema.decode b = .ok ⟨[⟨[],.other 97,true,none⟩]⟩ :=
  decode_long_name (List.replicate 65534 97) List.replicate_succ (List.length_replicate ..) (by decide)

end Plomvix.Engine
