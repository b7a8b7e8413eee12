import Plomvix.Planner.SingleTable
import Plomvix.Planner.JoinMeaning
import Plomvix.Lib.Fallible
import Plomvix.SQL.Mvcc

/-! What INSERT stores, and what a scan and a predicate then make of it. A row is taken from the
heap, encoded again and decoded under the schema of the engine, and that encoding has no NULL; a
literal in a predicate has the type it is written in, and not that of the column. -/
namespace Plomvix.Planner
open Lib Engine Plomvix.Lib.Fallible Plomvix.Lib.Comp

/-- The value is one of the type. -/
def hasType : Typ → Value → Bool
  | .int64,.int64 _ | .uint64,.uint64 _ | .float64,.float64 _ | .bool,.bool _
  | .string,.string _ | .bytes,.bytes _ => true
  | _,_ => false

lemma parseIntOrZero_of_parseInt {s : Bytes} {i : Int64} (h : parseInt s = some i) :
    parseIntOrZero s = i := by
  have hspace : s.dropWhile (· = 32) = s := by
    cases s with
    | nil => rfl
    | cons c s =>
      by_cases hc : c = 32
      · subst hc
        simp [parseInt,splitSign,isDigit] at h
      · simp [hc]
  simp only [parseInt] at h
  simp only [parseIntOrZero,hspace]
  generalize splitSign s = p at h ⊢
  obtain ⟨negative,digits⟩ := p
  simp only at h ⊢
  split at h
  · cases h
  · rename_i hdigits
    obtain ⟨hne,hall⟩ := not_or.mp hdigits
    have htake : digits.takeWhile isDigit = digits := by
      rw [List.takeWhile_eq_self_iff]
      intro c hc
      by_contra hcd
      exact hall (List.any_eq_true.mpr ⟨c,hc,by simpa using hcd⟩)
    rw [htake]
    cases digits with
    | nil => exact absurd rfl hne
    | cons c digits => simp [h]

section Literal
variable {lib : GoLib} {lit : Literal} {col : Column} {d : Datum}

lemma mapLiteralByType_typed (h : mapLiteralByType lib lit col = .ok d) :
    d.typ = col.typ ∧ hasType d.typ d.value = true := by
  obtain ⟨name,t,notNull,dv⟩ := col
  revert h
  fun_cases mapLiteralByType lib lit ⟨name,t,notNull,dv⟩ <;> intro h <;> cases h <;> simp_all [hasType]

lemma datumEqual_stored (hlit : lit.typ = .intVal ∨ lit.typ = .strVal)
    (h : mapLiteralByType lib lit col = .ok d) :
    datumEqual lib d (literalToDatum lib lit) = .ok (decide (col.typ = .int64 ∧ lit.typ = .intVal ∨
      col.typ = .string ∧ lit.typ = .strVal)) := by
  have htyp := (mapLiteralByType_typed h).1
  obtain ⟨typ,val⟩ := lit
  by_cases hsame : col.typ = (literalToDatum lib ⟨typ,val⟩).typ
  · obtain rfl | rfl := hlit
    · have hcol : col.typ = .int64 := hsame
      simp only [mapLiteralByType,hcol] at h
      cases hi : parseInt val with
      | none => simp [hi] at h
      | some i =>
        simp only [hi] at h
        cases h
        simp [datumEqual,literalToDatum,hcol,parseIntOrZero_of_parseInt hi]
    · have hcol : col.typ = .string := hsame
      simp only [mapLiteralByType,hcol] at h
      cases h
      simp [datumEqual,literalToDatum,hcol]
  · rw [datumEqual,if_pos (by rwa [htyp])]
    obtain rfl | rfl := hlit <;> simp_all [literalToDatum]

/-- A row is found by the literal that was stored in it if this literal is an integer in an integer
column or a text in a text one. -/
theorem stored_found_iff (lib : GoLib) (ps : PlannerSchema) (qualifier name : Bytes) (idx : ℕ)
    (field : SchemaField)
    (hcol : resolveColumn lib ps qualifier name = .ok idx) (hfield : ps[idx]? = some field) (lit : Literal)
    (hlit : lit.typ = .intVal ∨ lit.typ = .strVal) (d : Datum)
    (hstored : mapLiteral lib (.literal lit) field.column = .ok d)
    (row : Row) (hrow : row.datums[idx]? = some d) :
    (∃ pred, bindWherePlanner lib ps (.comparison .equal (.colName qualifier name) (.literal lit)) =
      .ok pred ∧
      pred.eval lib row = .ok (boolDatum true)) ↔
      field.column.typ = .int64 ∧ lit.typ = .intVal ∨ field.column.typ = .string ∧ lit.typ = .strVal := by
  have hbind : bindWherePlanner lib ps (.comparison .equal (.colName qualifier name) (.literal lit)) =
      .ok (.cmpExpr (.colRef idx field.column.typ) (.literalExpr (literalToDatum lib lit)) .eq) := by
    have hliteral : bindLiteral lib lit = .ok (.literalExpr (literalToDatum lib lit)) := by
      rw [bindLiteral]
      obtain h | h := hlit <;> simp [h]
    simp [bindWherePlanner,bindColumn,hcol,hfield,hliteral,Except.mapError,bind,Except.bind,pure,
      Except.pure,comparisonOp]
  have heval : (BoundExpr.cmpExpr (.colRef idx field.column.typ)
    (.literalExpr (literalToDatum lib lit)) .eq).eval lib row =
      .ok (boolDatum (decide (field.column.typ = .int64 ∧ lit.typ = .intVal ∨
        field.column.typ = .string ∧ lit.typ = .strVal))) := by
    simp only [BoundExpr.eval,hrow,bind,Except.bind,datumEqual_stored hlit hstored]
    rfl
  rw [hbind]
  constructor
  · rintro ⟨pred,hpred,h⟩
    cases hpred
    rw [heval] at h
    simpa [boolDatum] using h
  · intro h
    exact ⟨_,rfl,by rw [heval,decide_eq_true h]⟩

end Literal

theorem stored_number_found :
    ∃ pred, bindWherePlanner plainLib [⟨⟨ascii "a",.int64,false,none⟩,[]⟩]
      (.comparison .equal (.colName [] (ascii "a")) (.literal ⟨.intVal,ascii "5"⟩)) = .ok pred ∧
      pred.eval plainLib ⟨[⟨.int64,.int64 5⟩],0⟩ = .ok (boolDatum true) :=
  (stored_found_iff plainLib _ [] (ascii "a") 0 _ rfl rfl ⟨.intVal,ascii "5"⟩ (.inl rfl) ⟨.int64,
    .int64 5⟩ (by decide +kernel) _ rfl).mpr (.inl ⟨rfl,rfl⟩)

/-- A text stored in a column of bytes is not found by it. -/
theorem stored_not_found :
    ∃ d pred, mapLiteral plainLib (.literal ⟨.strVal,ascii "x"⟩) ⟨ascii "b",.bytes,false,none⟩ = .ok d ∧
      bindWherePlanner plainLib [⟨⟨ascii "b",.bytes,false,none⟩,[]⟩]
        (.comparison .equal (.colName [] (ascii "b")) (.literal ⟨.strVal,ascii "x"⟩)) = .ok pred ∧
      pred.eval plainLib ⟨[d],0⟩ = .ok (boolDatum false) := ⟨_,_,rfl,rfl,rfl⟩

def TypedDatum (col : Column) (d : Datum) : Prop :=
  d.typ = col.typ ∧ (d.value = .nil ∨ hasType d.typ d.value = true)

section Rows
variable {lib : GoLib} {schema : Schema} {row : Row}

lemma mapLiteral_typed {expr : Expr} {col : Column} {d : Datum}
    (h : mapLiteral lib expr col = .ok d) : TypedDatum col d := by
  cases expr with
  | nullVal =>
    cases h
    exact ⟨rfl,.inl rfl⟩
  | literal lit =>
    obtain ⟨htyp,hvalue⟩ := mapLiteralByType_typed h
    exact ⟨htyp,.inr hvalue⟩
  | _ => cases h

lemma coerceDatum_typed {col : Column} {src d : Datum}
    (hsrc : src.value = .nil ∨ hasType src.typ src.value = true)
    (h : coerceDatum lib src col = .ok d) : TypedDatum col d := by
  obtain ⟨name,t,notNull,dv⟩ := col
  revert h
  fun_cases coerceDatum lib src ⟨name,t,notNull,dv⟩ <;> intro h <;> cases h <;>
    simp_all [TypedDatum,hasType]

lemma mapAll_typed {pairs : List (Expr × Column)} {datums : List Datum}
    (h : mapAll lib pairs = .ok datums) :
    List.Forall₂ TypedDatum (pairs.map Prod.snd) datums := by
  induction pairs generalizing datums with
  | nil =>
    cases h
    exact .nil
  | cons p pairs ih =>
    obtain ⟨d,hd,h⟩ := bind_eq_ok.mp h
    obtain ⟨ds,hds,h⟩ := bind_eq_ok.mp h
    obtain rfl := pure_eq_ok.mp h
    exact .cons (mapLiteral_typed hd) (ih hds)

lemma mapListed_typed {columns : List Column} {seen : List Bytes} {listed : List (Bytes × Expr)}
    {mapped datums : List Datum}
    (hmapped : List.Forall₂ TypedDatum columns mapped)
    (h : mapListed lib columns seen listed mapped = .ok datums) :
    List.Forall₂ TypedDatum columns datums := by
  induction listed generalizing seen mapped with
  | nil =>
    cases h
    exact hmapped
  | cons p listed ih =>
    simp only [mapListed] at h
    split at h
    · cases h
    · split at h
      · cases h
      · rename_i idx _
        split at h
        · cases h
        · rename_i col hcol
          obtain ⟨d,hd,h⟩ := bind_eq_ok.mp h
          obtain ⟨hlength,hget⟩ := List.forall₂_iff_get.mp hmapped
          refine ih (List.forall₂_iff_get.mpr ⟨by simpa using hlength,fun i hi hi' => ?_⟩) h
          rw [List.get_eq_getElem,List.get_eq_getElem,List.getElem_set]
          split_ifs with heq
          · subst heq
            obtain ⟨_,rfl⟩ := List.getElem?_eq_some_iff.mp hcol
            exact mapLiteral_typed hd
          · exact hget i hi (by simpa using hi')

lemma buildRow_typed (hdefault : ∀ col ∈ schema.columns, col.defaultValue = none)
    {insertCols : List Bytes} {rowExprs : List Expr}
    (h : buildRow lib schema insertCols rowExprs = .ok row) :
    List.Forall₂ TypedDatum schema.columns row.datums := by
  have hdefaults : List.Forall₂ TypedDatum schema.columns (defaultDatums schema.columns) := by
    rw [defaultDatums,List.forall₂_map_right_iff,List.forall₂_same]
    intro col hcol
    rw [hdefault col hcol]
    exact ⟨rfl,.inl rfl⟩
  have hchecked : ∀ {mapped : List Datum}, List.Forall₂ TypedDatum schema.columns mapped →
      (do checkNotNull (schema.columns.zip mapped); return (⟨mapped,0⟩ : Row)) = .ok row →
        List.Forall₂ TypedDatum schema.columns row.datums := by
    intro mapped hmapped h
    obtain ⟨_,_,h⟩ := bind_eq_ok.mp h
    obtain rfl := pure_eq_ok.mp h
    exact hmapped
  simp only [buildRow] at h
  split_ifs at h with hlisted hlength hlength
  · cases h
  · obtain ⟨mapped,hmapped,h⟩ := bind_eq_ok.mp h
    exact hchecked (mapListed_typed hdefaults hmapped) h
  · cases h
  · obtain ⟨mapped,hmapped,h⟩ := bind_eq_ok.mp h
    refine hchecked ?_ h
    have htyped := mapAll_typed hmapped
    rwa [List.map_snd_zip (not_not.mp hlength).ge] at htyped

lemma coerceDatums_typed {pairs : List (Datum × Column)} {datums : List Datum}
    (hsrc : ∀ p ∈ pairs, p.1.value = .nil ∨ hasType p.1.typ p.1.value = true)
    (h : coerceDatums lib pairs = .ok datums) : List.Forall₂ TypedDatum (pairs.map Prod.snd) datums := by
  induction pairs generalizing datums with
  | nil =>
    cases h
    exact .nil
  | cons p pairs ih =>
    obtain ⟨d,hd,h⟩ := bind_eq_ok.mp h
    split_ifs at h
    obtain ⟨ds,hds,h⟩ := bind_eq_ok.mp h
    obtain rfl := pure_eq_ok.mp h
    exact .cons (coerceDatum_typed (hsrc p (List.mem_cons_self ..)) hd)
      (ih (fun q hq => hsrc q (List.mem_cons_of_mem _ hq)) hds)

lemma coerceRow_typed {src : Row} (hsrc : ∀ d ∈ src.datums, d.value = .nil ∨ hasType d.typ d.value = true)
    (h : coerceRow lib schema src = .ok row) : List.Forall₂ TypedDatum schema.columns row.datums := by
  simp only [coerceRow] at h
  split_ifs at h with hlength
  obtain ⟨datums,hdatums,h⟩ := bind_eq_ok.mp h
  obtain rfl := pure_eq_ok.mp h
  have htyped := coerceDatums_typed (fun p hp => hsrc p.1 (List.of_mem_zip hp).1) hdatums
  rwa [List.map_snd_zip (not_not.mp hlength).ge] at htyped

/-- The schema of a table that CREATE TABLE makes. -/
def createdSchema (columns : List (Bytes × SQL.Kind)) : Schema :=
  ⟨columns.map fun col => ⟨col.1,keyKindToEngineType col.2,false,none⟩⟩

/-- A row of VALUES or of a SELECT that the heap of the table took. -/
structure Accepted (lib : GoLib) (columns : List (Bytes × SQL.Kind)) (row : Row) : Prop where
  built : (∃ insertCols rowExprs, buildRow lib (createdSchema columns) insertCols rowExprs = .ok row) ∨
    ∃ src, (∀ d ∈ src.datums, d.value = .nil ∨ hasType d.typ d.value = true) ∧
      coerceRow lib (createdSchema columns) src = .ok row
  taken : ∃ tableID tx st,
    (SQL.insert (heapSchema tableID columns) SQL.btreeLimits tx row.vals st).1 = .ok ()

variable {columns : List (Bytes × SQL.Kind)}

lemma Accepted.typed (h : Accepted lib columns row) :
    List.Forall₂ TypedDatum (createdSchema columns).columns row.datums := by
  obtain ⟨insertCols,rowExprs,h⟩ | ⟨src,hsrc,h⟩ := h.built
  · refine buildRow_typed (fun col hcol => ?_) h
    obtain ⟨_,_,rfl⟩ := List.mem_map.mp hcol
    rfl
  · exact coerceRow_typed hsrc h

lemma fits_of_insert {schema : SQL.Schema} {lim : SQL.Limits} {tx : UInt64} {vals : List SQL.Val}
    {st : SQL.Entries}
    (h : (SQL.insert schema lim tx vals st).1 = .ok ()) : ∃ data, SQL.encodeEnterpriseValue schema
      (some vals) SQL.flagNormal = .ok data ∧ data.length < 2^32 := by
  rw [SQL.insert,SQL.setEntry] at h
  split at h
  · cases h
  · rename_i k v hentry
    obtain ⟨-,-,-,hv,-⟩ := SQL.insertEntry_ok_iff.mp hentry
    rw [SQL.storeSet] at h
    split_ifs at h with haccepts
    exact ⟨v,hv,lim.small haccepts⟩

lemma typed_of_admitted {col : Column} {d : Datum} {kind : SQL.Kind} (htyped : TypedDatum col d)
    (hnull : d.value≠.nil) (hadmitted : d.value.toVal.Admitted kind) :
    d.value.toVal.Typed (engineTypeToKeyKind col.typ) ∧ keyValueToDatum d.value.toVal col.typ = d := by
  obtain ⟨typ,value⟩ := d
  obtain ⟨htyp,hvalue⟩ := htyped
  rw [← htyp]
  replace hvalue := hvalue.resolve_left hnull
  clear htyp
  cases value <;> cases typ <;> simp_all [hasType,Value.toVal,SQL.Val.Admitted,SQL.Val.Typed,
    engineTypeToKeyKind,keyValueToDatum]

lemma encodeRow_of_composite {vals : List SQL.Val} {b : Bytes}
    (h : SQL.encodeStorageComposite vals = .ok b) : encodeRowToBytes vals = .ok b := by
  rw [encodeRowToBytes]
  split_ifs with hnil
  · subst hnil
    simpa [SQL.encodeStorageComposite] using h
  · rw [h]
    rfl

lemma datums_of_vals {columns : List Column} {datums : List Datum} (h : List.Forall₂ (fun
      (col : Column) (d : Datum) => keyValueToDatum d.value.toVal col.typ = d) columns datums) :
    ((datums.map fun d => d.value.toVal).zip columns).map (fun x => keyValueToDatum x.1 x.2.typ) =
      datums := by
  induction h with
  | nil => rfl
  | cons h _ ih => rw [List.map_cons,List.zip_cons_cons,List.map_cons,ih,h]

lemma decodeRow_of_typed {b : Bytes} (htyped : List.Forall₂ (fun (col : Column) (d : Datum) =>
      d.value.toVal.Typed (engineTypeToKeyKind col.typ) ∧
        keyValueToDatum d.value.toVal col.typ = d) schema.columns row.datums)
    (hb : SQL.encodeStorageComposite row.vals = .ok b) (hsmall : b.length < 2^32) :
    decodeRow b schema = .ok row.datums := by
  have hkinds : List.Forall₂ (fun k v => SQL.Val.Typed k v) (schema.columns.map fun col =>
    engineTypeToKeyKind col.typ) row.vals := by
    rw [Row.vals,List.forall₂_map_left_iff,List.forall₂_map_right_iff]
    exact htyped.imp fun _ _ h => h.1
  have hdatums := datums_of_vals (htyped.imp fun _ _ h => h.2)
  obtain ⟨fs,hparse,hdecode,hlength⟩ := SQL.parse_encodeStorageComposite hkinds hb fun v hv =>
    (SQL.size_le_encode hb v hv).trans_lt hsmall
  by_cases hnil : schema.columns = []
  · rw [hnil] at htyped
    have hrow := List.forall₂_nil_left_iff.mp htyped
    rw [Row.vals,hrow] at hb
    cases hb
    simp [decodeRow,hrow]
  · have hvals : row.vals≠[] := fun hvals => hnil (by simpa [hvals] using hkinds)
    have hb' : b≠[] := by
      rintro rfl
      obtain ⟨kind,kinds,heq⟩ := List.exists_cons_of_ne_nil
        (show (schema.columns.map fun col => engineTypeToKeyKind col.typ)≠[] by simpa using hnil)
      rw [heq] at hparse
      simp [SQL.parseFields] at hparse
    have hfs : fs≠[] := fun hfs => hvals (List.length_eq_zero_iff.mp (by rw [← hlength,hfs]; rfl))
    simp only [decodeRow,if_neg hb',SQL.parseStorageCompositeKey,SQL.decodeStorageComposite]
    rw [if_neg (by simpa using hnil),hparse]
    simp [Except.mapError,bind,Except.bind,pure,Except.pure,hfs,hdecode,Row.vals,hdatums]

lemma Accepted.scanned (h : Accepted lib columns row) (hnull : ∀ d ∈ row.datums, d.value≠.nil) :
    ∃ encoded, encodeRowToBytes row.vals = .ok encoded ∧
      decodeRow encoded (createdSchema columns) = .ok row.datums := by
  obtain ⟨tableID,tx,st,htaken⟩ := h.taken
  obtain ⟨data,hdata,hlength⟩ := fits_of_insert htaken
  have hfits := SQL.fits_of_encode hdata
  have hnonNull : SQL.nonNulls row.vals = row.vals := by
    refine List.filter_eq_self.mpr fun v hv => ?_
    obtain ⟨d,hd,rfl⟩ := List.mem_map.mp hv
    have := hnull d hd
    cases hvalue : d.value <;> simp_all [Value.toVal]
  have hadmitted : ∀ d ∈ row.datums, ∃ kind, d.value.toVal.Admitted kind := by
    intro d hd
    have hmem : d.value.toVal ∈ ((heapSchema tableID columns).kinds.zip row.vals).map Prod.snd := by
      rw [List.map_snd_zip hfits.kinds_length.ge]
      exact List.mem_map_of_mem hd
    obtain ⟨kv,hkv,heq⟩ := List.mem_map.mp hmem
    exact ⟨kv.1,heq ▸ hfits.admitted kv hkv⟩
  have htyped : List.Forall₂ (fun (col : Column) (d : Datum) =>
    d.value.toVal.Typed (engineTypeToKeyKind col.typ) ∧ keyValueToDatum d.value.toVal col.typ = d)
      (createdSchema columns).columns row.datums := by
    obtain ⟨hlength,htyped⟩ := List.forall₂_iff_zip.mp h.typed
    refine List.forall₂_iff_zip.mpr ⟨hlength,fun {col d} hmem => ?_⟩
    have hd := (List.of_mem_zip hmem).2
    obtain ⟨kind,hkind⟩ := hadmitted d hd
    exact typed_of_admitted (htyped hmem) (hnull d hd) hkind
  obtain ⟨composite,hcomposite,hsmall⟩ : ∃ b, SQL.encodeStorageComposite row.vals = .ok b ∧
    b.length < 2^32 := by
    rw [SQL.encodeEnterpriseValue_fits hfits,hnonNull] at hdata
    cases hb : SQL.encodeStorageComposite row.vals with
    | error e => simp [hb] at hdata
    | ok b =>
      rw [hb] at hdata
      cases hdata
      refine ⟨b,rfl,?_⟩
      simp only [List.length_append] at hlength
      omega
  exact ⟨composite,encodeRow_of_composite hcomposite,decodeRow_of_typed htyped hcomposite hsmall⟩

lemma not_null_of_encode {vals : List SQL.Val} {b : Bytes}
    (h : SQL.encodeStorageComposite vals = .ok b) : .null ∉ vals := by
  induction vals generalizing b with
  | nil => exact List.not_mem_nil
  | cons v vals ih =>
    rw [SQL.encodeStorageComposite] at h
    split at h
    · cases h
    · rename_i c hc
      split at h
      · cases h
      · rename_i r hr
        intro hmem
        obtain rfl | hmem := List.mem_cons.mp hmem
        · cases hc
        · exact ih hr hmem

lemma encodeRowID_ok_iff {generation offset : UInt64} : (∃ id,
      encodeRowID generation offset = .ok id) ↔ generation ≤ 0xFFFFFFFF ∧ offset ≤ 0xFFFFFFFE := by
  rw [encodeRowID]
  split_ifs with hgeneration hoffset
  · simp [not_le.mpr hgeneration]
  · simp [not_le.mpr hoffset]
  · simp [not_lt.mp hgeneration,not_lt.mp hoffset]

end Rows

section Scan
variable {decoder : RowDecoder} {schema : Schema} {close : Except Err Unit}

lemma decodes_of_streams {tuples : List (Except Err (Bytes × UInt64))} {rows : List Row}
    {s : Option HeapScanIterator}
    (h : Cursor.Streams (seqScanNext decoder schema) (some ⟨tuples,close⟩) rows s) :
    Decodes decoder schema tuples rows := by
  induction tuples generalizing rows with
  | nil =>
    have hend : Cursor.Streams (seqScanNext decoder schema) (some ⟨[],close⟩) []
      (some ⟨[],close⟩) := streams_scan .nil
    obtain rfl := (h.unique hend).1
    exact .nil
  | cons t tuples ih =>
    cases t with
    | error e =>
      have hnext : (seqScanNext decoder schema (some ⟨.error e::tuples,close⟩)).Returns (.err e,
        some ⟨tuples,close⟩) := returns_pure.mpr rfl
      exact absurd h (Cursor.Streams.not_err hnext)
    | ok p =>
      obtain ⟨encoded,rowID⟩ := p
      cases hd : decoder encoded schema with
      | error e =>
        have hnext : (seqScanNext decoder schema (some ⟨.ok (encoded,rowID)::tuples,close⟩)).Returns
          (.err e,some ⟨tuples,close⟩) := by
          simp only [seqScanNext,hd]
          exact returns_pure.mpr rfl
        exact absurd h (Cursor.Streams.not_err hnext)
      | ok datums =>
        have hnext : (seqScanNext decoder schema (some ⟨.ok (encoded,rowID)::tuples,close⟩)).Returns
          (.row ⟨datums,rowID⟩,some ⟨tuples,close⟩) := by
          simp only [seqScanNext,hd]
          exact returns_pure.mpr rfl
        obtain ⟨rows',rfl,hrest⟩ := h.of_row hnext
        exact .cons ⟨encoded,rfl,hd⟩ (ih hrest)

end Scan

/-- The same value, of the same type unless it is NULL. -/
def SameDatum (d' d : Datum) : Prop := d'.value = d.value ∧ (d.value = .nil ∨ d'.typ = d.typ)

/-- What the iterator over the heap of a table returns. -/
def scanTuple (generation : UInt64) (counter : ℕ) (vals : List SQL.Val) : Except Err (Bytes × UInt64) := do
  let rowID ← encodeRowID generation (UInt64.ofNat counter)
  let encoded ← encodeRowToBytes vals
  return (encoded,rowID)

section Table
variable {lib : GoLib} {columns : List (Bytes × SQL.Kind)} {rows : List Row} {generation : UInt64}

lemma scanTuple_ok {counter : ℕ} {row : Row} {p : Bytes × UInt64}
    (h : scanTuple generation counter row.vals = .ok p) :
    generation ≤ 0xFFFFFFFF ∧ UInt64.ofNat counter ≤ 0xFFFFFFFE ∧ ∀ d ∈ row.datums, d.value≠.nil := by
  obtain ⟨id,hid,h⟩ := bind_eq_ok.mp h
  obtain ⟨encoded,hencoded,-⟩ := bind_eq_ok.mp h
  obtain ⟨hgeneration,hcounter⟩ := encodeRowID_ok_iff.mp ⟨id,hid⟩
  refine ⟨hgeneration,hcounter,fun d hd hnil => ?_⟩
  have hmem : SQL.Val.null ∈ row.vals := List.mem_map.mpr ⟨d,hd,by rw [hnil]; rfl⟩
  rw [encodeRowToBytes,if_neg (List.ne_nil_of_mem hmem)] at hencoded
  cases hb : SQL.encodeStorageComposite row.vals with
  | error e =>
    rw [hb] at hencoded
    cases hencoded
  | ok b => exact not_null_of_encode hb hmem

lemma scanTuple_of_accepted {counter : ℕ} {row : Row} (h : Accepted lib columns row)
    (hnull : ∀ d ∈ row.datums, d.value≠.nil)
    (hgeneration : generation ≤ 0xFFFFFFFF) (hcounter : counter < 0xFFFFFFFF) :
    ∃ encoded id, scanTuple generation counter row.vals = .ok (encoded,id) ∧
      decodeRow encoded (createdSchema columns) = .ok row.datums := by
  obtain ⟨encoded,hencoded,hdecoded⟩ := h.scanned hnull
  have hoffset : UInt64.ofNat counter ≤ 0xFFFFFFFE := by
    rw [UInt64.le_iff_toNat_le,UInt64.toNat_ofNat_of_lt' (show counter < 2^64 by omega)]
    exact show counter ≤ 4294967294 by omega
  obtain ⟨id,hid⟩ := encodeRowID_ok_iff.mpr ⟨hgeneration,hoffset⟩
  refine ⟨encoded,id,?_,hdecoded⟩
  simp [scanTuple,hid,hencoded,bind,Except.bind,pure,Except.pure]

end Table

theorem inserted_come_back_iff (lib : GoLib) (columns : List (Bytes × SQL.Kind)) (rows : List Row)
    (haccepted : ∀ row ∈ rows, Accepted lib columns row)
    (heap : TableHeap) (tx : TxContext) (generation : UInt64) (close : Except Err Unit)
    (hscan : heap.scan tx = .ok ⟨(rows.map Row.vals).mapIdx (scanTuple generation),close⟩) :
    (∃ out, (seqScanNode heap decodeRow (createdSchema columns) tx).drain.Returns (.ok out) ∧
      out.Forall₂ (fun row' row => List.Forall₂ SameDatum row'.datums row.datums) rows) ↔
      (∀ row ∈ rows, ∀ d ∈ row.datums, d.value≠.nil) ∧ rows.length ≤ 0xFFFFFFFF ∧
        (rows≠[] → generation ≤ 0xFFFFFFFF) := by
  have hopen : ∀ s, (seqScanOpen heap tx s).Returns (.ok (),
    some ⟨(rows.map Row.vals).mapIdx (scanTuple generation),close⟩) := by
    intro s
    rw [seqScanOpen,hscan]
    exact returns_pure.mpr rfl
  constructor
  · rintro ⟨out,hdrain,-⟩
    obtain ⟨s,s',hs,hstreams⟩ := runs_of_drain hdrain
    obtain rfl := (Prod.mk.inj (hs.unique (hopen _))).2
    have hdecodes := decodes_of_streams hstreams
    have hok : ∀ i (hi : i < rows.length), ∃ p, scanTuple generation i rows[i].vals = .ok p := by
      intro i hi
      obtain ⟨hlength,hget⟩ := List.forall₂_iff_get.mp hdecodes
      have hi' : i < ((rows.map Row.vals).mapIdx (scanTuple generation)).length := by simpa using hi
      obtain ⟨encoded,heq,-⟩ := hget i hi' (hlength ▸ hi')
      exact ⟨_,by simpa using heq⟩
    refine ⟨fun row hrow => ?_,?_,fun hne => ?_⟩
    · obtain ⟨i,hi,rfl⟩ := List.getElem_of_mem hrow
      obtain ⟨p,hp⟩ := hok i hi
      exact (scanTuple_ok hp).2.2
    · by_contra hlong
      obtain ⟨p,hp⟩ := hok 0xFFFFFFFF (by omega)
      exact absurd (scanTuple_ok hp).2.1 (by decide)
    · obtain ⟨p,hp⟩ := hok 0 (List.length_pos_iff.mpr hne)
      exact (scanTuple_ok hp).1
  · rintro ⟨hnull,hlength,hgeneration⟩
    have htuple : ∀ i (hi : i < rows.length), ∃ encoded id,
      scanTuple generation i rows[i].vals = .ok (encoded,id) ∧
        decodeRow encoded (createdSchema columns) = .ok rows[i].datums := fun i hi =>
      scanTuple_of_accepted (haccepted _ (List.getElem_mem hi)) (hnull _ (List.getElem_mem hi))
        (hgeneration (List.ne_nil_of_length_pos (by omega))) (by omega)
    choose encoded id hscanned hdecoded using htuple
    refine ⟨List.ofFn fun i : Fin rows.length => ⟨rows[i].datums,id i i.isLt⟩,?_,?_⟩
    · have hdecodes : Decodes decodeRow (createdSchema columns)
        ((rows.map Row.vals).mapIdx (scanTuple generation))
          (List.ofFn fun i : Fin rows.length => ⟨rows[i].datums,id i i.isLt⟩) := by
        refine List.forall₂_iff_get.mpr ⟨by simp,fun i hi hi' => ?_⟩
        have hlt : i < rows.length := by simpa using hi'
        exact ⟨encoded i hlt,by simpa using hscanned i hlt,by simpa using hdecoded i hlt⟩
      exact Operator.Runs.drain ⟨_,_,hopen _,streams_scan hdecodes⟩
    · refine List.forall₂_iff_get.mpr ⟨by simp,fun i hi hi' => ?_⟩
      rw [List.get_eq_getElem,List.get_eq_getElem,List.getElem_ofFn]
      exact List.forall₂_same.mpr fun d _ => (⟨rfl,.inr rfl⟩ : SameDatum d d)

def notesColumns : List (Bytes × SQL.Kind) := [(ascii "id",.int64),(ascii "note",.string)]

def noteRow (id : Int64) (note : Value) : Row := ⟨[⟨.int64,.int64 id⟩,⟨.string,note⟩],0⟩

def notesHeap (rows : List Row) : TableHeap :=
  ⟨fun _ => .ok ⟨(rows.map Row.vals).mapIdx (scanTuple 0),.ok ()⟩⟩

lemma noteRow_accepted : Accepted plainLib notesColumns (noteRow 2 (.string (ascii "x"))) :=
  ⟨.inl ⟨[],[.literal ⟨.intVal,ascii "2"⟩,.literal ⟨.strVal,ascii "x"⟩],by decide +kernel⟩,7,1,[],
    by decide +kernel⟩

theorem note_comes_back : ∃ out, (seqScanNode (notesHeap [noteRow 2 (.string (ascii "x"))])
      decodeRow (createdSchema notesColumns) ⟨1,0⟩).drain.Returns (.ok out) ∧
    out.Forall₂ (fun row' row => List.Forall₂ SameDatum row'.datums row.datums)
      [noteRow 2 (.string (ascii "x"))] := by
  refine (inserted_come_back_iff plainLib notesColumns _ (fun row hrow =>
    ?_) _ ⟨1,0⟩ 0 (.ok ()) rfl).mpr ⟨by decide,by decide,fun _ => by decide⟩
  rw [List.mem_singleton.mp hrow]
  exact noteRow_accepted

/-- A row with a NULL is taken, and the scan of the table ends there with an error. -/
theorem null_ends_scan :
    Accepted plainLib notesColumns (noteRow 2 (.string (ascii "x"))) ∧
      Accepted plainLib notesColumns (noteRow 3 .nil) ∧
      (seqScanNode (notesHeap [noteRow 2 (.string (ascii "x")),noteRow 3 .nil]) decodeRow
        (createdSchema notesColumns) ⟨2,0⟩).drain.Returns
          (.error (.wrap "sql: encode row: %w" (.heap .unsupportedType) [])) := by
  have hnull : Accepted plainLib notesColumns (noteRow 3 .nil) :=
    ⟨.inl ⟨[ascii "id"],[.literal ⟨.intVal,ascii "3"⟩],by decide +kernel⟩,7,1,[],by decide +kernel⟩
  exact ⟨noteRow_accepted,hnull,5,by decide +kernel⟩

end Plomvix.Planner
