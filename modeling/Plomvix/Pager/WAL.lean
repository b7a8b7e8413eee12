import Plomvix.Pager.Format

/-! Reading the write-ahead log: of a log that is cut anywhere exactly the whole records are read. -/
namespace Plomvix.Pager
open Lib

/-- The loop of `replayWALInternal` over the log: the records it reads and the error that ends it,
none at the end of the data. -/
def parseRecords : ℕ → Bytes → List WALRecord × Option Err
  | 0,_ => ([],none)
  | fuel+1,data =>
    if data = [] then ([],none)
    else match decodeNextWALRecord data with
      | .error e => ([],some e)
      | .ok (r,consumed) =>
        let (rs,stop) := parseRecords fuel (data.drop consumed)
        (r::rs,stop)

/-- A record takes bytes, so there are no more of them than bytes. -/
def readRecords (walData : Bytes) : List WALRecord × Option Err := parseRecords walData.length walData

/-- What is appended to the log. -/
inductive Entry
  | data (txnID pageID : UInt64) (body : Bytes) (hid : pageID.toNat≠walEOTPageID)
      (hbody : body.length = dataPageBodySize)
  | eot (txnID : UInt64)

namespace Entry

def encode : Entry → Bytes
  | data txnID pageID body _ _ => encodeWALRecord txnID.toNat pageID.toNat body
  | eot txnID => encodeEOTMarker txnID.toNat

def fields : Entry → WALRecord
  | data txnID pageID body _ _ => ⟨txnID.toNat,pageID.toNat,body⟩
  | eot txnID => ⟨txnID.toNat,walEOTPageID,[]⟩

end Entry

def walHead (txnID pageID bodyLength : ℕ) : Bytes :=
  beBytes 8 txnID++beBytes 8 pageID++beBytes 4 bodyLength

lemma walHead_length (txnID pageID bodyLength : ℕ) :
    (walHead txnID pageID bodyLength).length = 20 := by simp [walHead]

lemma decode_walHead {t p n : ℕ} (ht : t < 256^8) (hp : p < 256^8) (hn : n < 256^4)
    (hshape : p = walEOTPageID ∧ n = 0 ∨ p≠walEOTPageID ∧ n = dataPageBodySize) (rest : Bytes) :
    decodeNextWALRecord (walHead t p n++rest) =
      if rest.length < n+4 then .error .eof
      else if beNat ((rest.drop n).take 4)≠checksumIEEE (walHead t p n++rest.take n) then
        .error (.wrap "CRC mismatch" .walCorrupt)
      else .ok (⟨t,p,rest.take n⟩,20+n+4) := by
  have hlen := walHead_length t p n
  have htake : beNat ((walHead t p n++rest).take 8) = t := by
    rw [walHead,List.append_assoc,List.append_assoc,List.take_left' (beBytes_length ..),beNat_beBytes ht]
  have hpage : beNat (((walHead t p n++rest).drop 8).take 8) = p := by
    rw [walHead,List.append_assoc,take_drop_field (beBytes_length ..) (beBytes_length ..),beNat_beBytes hp]
  have hbody : beNat (((walHead t p n++rest).drop 16).take 4) = n := by
    rw [walHead,take_drop_field (by simp) (beBytes_length ..),beNat_beBytes hn]
  have hdrop (m : ℕ) : (walHead t p n++rest).drop (20+m) = rest.drop m := by
    rw [← List.drop_drop,List.drop_left' hlen]
  have hwhole : (walHead t p n++rest).take (20+n) = walHead t p n++rest.take n := by
    rw [← hlen,List.take_length_add_append]
  have h1 : ¬(p = walEOTPageID ∧ n≠0) := by tauto
  have h2 : ¬(p≠walEOTPageID ∧ n≠dataPageBodySize) := by tauto
  unfold decodeNextWALRecord
  simp only [htake,hpage,hbody,hdrop,hwhole,List.length_append,hlen,if_neg h1,if_neg h2]
  rw [if_neg (by omega)]
  simp only [show (20+rest.length < 20+n+4) = (rest.length < n+4) by simp; omega]
  rw [show (walHead t p n++rest).drop 20 = rest from hdrop 0]

namespace Entry

lemma encode_eq (e : Entry) : ∃ t p n body sum, e.encode = walHead t p n++(body++sum) ∧
      e.fields = ⟨t,p,body⟩ ∧
    body.length = n ∧ sum = beBytes 4 (checksumIEEE (walHead t p n++body)) ∧ t < 256^8 ∧ p < 256^8 ∧
      n < 256^4 ∧
    (p = walEOTPageID ∧ n = 0 ∨ p≠walEOTPageID ∧ n = dataPageBodySize) := by
  cases e with
  | data t p body hid hbody =>
    refine ⟨t.toNat,p.toNat,body.length,body,_,?_,rfl,rfl,rfl,t.toNat_lt,p.toNat_lt,hbody ▸ by
      decide,.inr ⟨hid,hbody⟩⟩
    simp [encode,encodeWALRecord,walFields,walHead]
  | eot t =>
    refine ⟨t.toNat,walEOTPageID,0,[],_,?_,rfl,rfl,rfl,t.toNat_lt,by decide,by decide,.inl ⟨rfl,rfl⟩⟩
    simp [encode,encodeEOTMarker,encodeWALRecord,walFields,walHead]

lemma decode_append (e : Entry) (r : Bytes) :
    decodeNextWALRecord (e.encode++r) = .ok (e.fields,e.encode.length) := by
  obtain ⟨t,p,n,body,sum,henc,hf,hn,hsum,ht,hp,hn4,hshape⟩ := e.encode_eq
  have hsumlen : sum.length = 4 := hsum ▸ beBytes_length ..
  rw [henc,List.append_assoc,decode_walHead ht hp hn4 hshape,hf,List.append_assoc,
    List.take_left' hn,List.drop_left' hn,
    List.take_left' hsumlen,if_neg (by simp [hn,hsumlen]),hsum,beNat_beBytes (checksumIEEE_lt _),
      if_neg (not_not.mpr rfl)]
  simp [walHead_length,hn]
  omega

lemma decode_cut (e : Entry) {k : ℕ} (hk : k < e.encode.length) :
    decodeNextWALRecord (e.encode.take k) = .error .eof := by
  obtain ⟨t,p,n,body,sum,henc,-,hn,hsum,ht,hp,hn4,hshape⟩ := e.encode_eq
  have hsumlen : sum.length = 4 := hsum ▸ beBytes_length ..
  have hlen := walHead_length t p n
  rw [henc] at hk ⊢
  simp only [List.length_append,hlen,hn,hsumlen] at hk
  by_cases hshort : k < 20
  · rw [decodeNextWALRecord,if_pos (by rw [List.length_take]; omega)]
  · obtain ⟨m,rfl⟩ := Nat.exists_eq_add_of_le (not_lt.mp hshort)
    rw [← hlen,List.take_length_add_append,decode_walHead ht hp hn4 hshape,if_pos]
    rw [List.length_take]
    omega

end Entry

lemma parseRecords_take (es : List Entry) (k : ℕ) {fuel : ℕ}
    (hfuel : ((es.flatMap Entry.encode).take k).length ≤ fuel) :
    ∃ whole, whole <+: es ∧ (whole.flatMap Entry.encode).length ≤ k ∧
      (∀ more, more <+: es → (more.flatMap Entry.encode).length ≤ k → more <+: whole) ∧
      parseRecords fuel ((es.flatMap Entry.encode).take k) =
        (whole.map Entry.fields,if (es.flatMap Entry.encode).take k =
          whole.flatMap Entry.encode then none else some .eof) := by
  induction es generalizing k fuel with
  | nil =>
    refine ⟨[],List.nil_prefix,Nat.zero_le k,fun more hmore _ => hmore,?_⟩
    cases fuel <;> simp [parseRecords]
  | cons e es ih =>
    have hpos : 0 < e.encode.length := by
      obtain ⟨t,p,n,body,sum,henc,-⟩ := e.encode_eq
      simp [henc,walHead_length]
    rw [List.flatMap_cons] at hfuel ⊢
    by_cases hle : e.encode.length ≤ k
    · obtain ⟨m,rfl⟩ := Nat.exists_eq_add_of_le hle
      rw [List.take_length_add_append] at hfuel ⊢
      cases fuel with
      | zero => simp only [List.length_append] at hfuel; omega
      | succ fuel =>
        obtain ⟨whole,hw,hlen,hmax,hparse⟩ := @ih m fuel (by rw [List.length_append] at hfuel; omega)
        refine ⟨e::whole,List.cons_prefix_cons.mpr ⟨rfl,hw⟩,by simpa using hlen,fun more hmore hk => ?_,?_⟩
        · cases more with
          | nil => exact List.nil_prefix
          | cons e' more =>
            obtain ⟨rfl,htail⟩ := List.cons_prefix_cons.mp hmore
            exact List.cons_prefix_cons.mpr ⟨rfl,hmax more htail (by simpa using hk)⟩
        · have hne : e.encode++(es.flatMap Entry.encode).take m≠[] :=
            fun h => hpos.ne' (congrArg List.length (List.append_eq_nil_iff.mp h).1)
          rw [parseRecords,if_neg hne,e.decode_append]
          simp only [List.drop_left,hparse,List.map_cons,List.flatMap_cons,List.append_cancel_left_eq]
    · have hcut : (e.encode++es.flatMap Entry.encode).take k = e.encode.take k :=
        List.take_append_of_le_length (not_le.mp hle).le
      refine ⟨[],List.nil_prefix,Nat.zero_le k,fun more hmore hk => ?_,?_⟩
      · cases more with
        | nil => exact List.nil_prefix
        | cons e' more =>
          obtain ⟨rfl,-⟩ := List.cons_prefix_cons.mp hmore
          rw [List.flatMap_cons,List.length_append] at hk
          omega
      · rw [hcut] at hfuel ⊢
        by_cases hzero : e.encode.take k = []
        · cases fuel <;> simp [parseRecords,hzero]
        · cases fuel with
          | zero => exact absurd (List.length_eq_zero_iff.mp (Nat.le_zero.mp hfuel)) hzero
          | succ fuel => simp [parseRecords,hzero,e.decode_cut (not_le.mp hle)]

/-- Of every log that is cut, the longest run of whole records is read; then the log ends or the
rest is too short. -/
theorem readRecords_take (es : List Entry) (k : ℕ) :
    ∃ whole, whole <+: es ∧ (whole.flatMap Entry.encode).length ≤ k ∧
      (∀ more, more <+: es → (more.flatMap Entry.encode).length ≤ k → more <+: whole) ∧
      readRecords ((es.flatMap Entry.encode).take k) =
        (whole.map Entry.fields,if (es.flatMap Entry.encode).take k =
          whole.flatMap Entry.encode then none else some .eof) :=
  parseRecords_take es k le_rfl

end Plomvix.Pager
