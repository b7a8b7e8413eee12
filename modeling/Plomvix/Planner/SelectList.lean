import Plomvix.Planner.Grouping

/-! The select list of a query with GROUP BY. The translator reads only the aggregates of it: the
columns that come out are those of GROUP BY in its order, and the aggregates after them. -/
namespace Plomvix.Planner
open Lib Engine Plomvix.Lib.Comp Plomvix.Lib.Cursor Plomvix.Lib.Fallible

/-- A column of a grouped query. -/
inductive Term
  | key (idx : ℕ)
  | agg (agg : AggRequest)
  deriving DecidableEq

namespace Term

/-- Whatever column COUNT has, it counts the rows. -/
def plain : Term → Term
  | agg ⟨.count,_⟩ => agg ⟨.count,none⟩
  | t => t

def op? : Term → Option AggOp
  | key _ => none
  | agg request => some request.op

end Term

section Meaning
variable (lib : PlanLib)

def aggStep (agg : AggRequest) (acc : AggAccumulator) (row : Row) : Except Err AggAccumulator := do
  let val ← match agg.colIdx with
    | none => .ok nullDatum
    | some idx => match row.datums[idx]? with
      | none => .error .panic
      | some d => .ok d
  acc.accumulate lib val

def termValue (group : List Row) : Term → Option Datum
  | .key idx => group.head?.bind fun row => row.datums[idx]?
  | .agg ⟨.count,_⟩ => some ⟨.int64,.int64 (Int64.ofNat group.length)⟩
  | .agg agg => ((group.foldlM (aggStep lib agg) (.new agg.op)).map (·.result)).toOption

def keyText (groupKeys : List ℕ) (row : Row) : Bytes :=
  (((groupDatums groupKeys row).bind fun datums =>
    (datums.mapM (serializeDatum lib)).map joinKey).toOption).getD []

def groupOf (groupKeys : List ℕ) (rows : List Row) (text : Bytes) : List Row :=
  rows.filter fun row => keyText lib groupKeys row = text

/-- The column that a name means; one that is ambiguous is the first of this name, as it is in GROUP BY. -/
def itemColumn (op : Operator) (qualifier name : Bytes) : Option ℕ :=
  match resolveColumn lib.toGoLib (getPlannerSchema op) qualifier name with
  | .ok idx => some idx
  | .error _ => colIndex name op.schema

def aggOp (name : Bytes) : Option AggOp :=
  if lib.toUpper name = ascii "COUNT" then some .count
  else if lib.toUpper name = ascii "SUM" then some .sum
  else if lib.toUpper name = ascii "MIN" then some .min
  else if lib.toUpper name = ascii "MAX" then some .max
  else none

/-- What a select item stands for; none if it is neither a grouping column nor an aggregate. -/
def itemTerm (op : Operator) (groupKeys : List ℕ) : SelectItem → Option Term
  | .aliased (.colName qualifier name) _ =>
    ((itemColumn lib op qualifier name).filter (· ∈ groupKeys)).map .key
  | .func name [] _ => if aggOp lib name = some .count then some (.agg ⟨.count,none⟩) else none
  | .func name [.colName qualifier col] _ =>
    (aggOp lib name).bind fun agg => (itemColumn lib op qualifier col).map fun idx => .agg ⟨agg,some idx⟩
  | _ => none

def nodeTerms (groupKeys : List ℕ) (aggs : List AggRequest) : List Term :=
  groupKeys.map .key++aggs.map .agg

/-- Every item is a grouping column or an aggregate, and each group has one row, with the values of
the items as they are listed. -/
def Listed (op : Operator) (groupKeys : List ℕ) (items : List SelectItem) (node : Operator)
    (rows out : List Row) : Prop :=
  ∃ terms, items.mapM (itemTerm lib op groupKeys) = some terms ∧
    node.schema.columns.length = terms.length ∧
    (firsts (rows.map (keyText lib groupKeys))).Forall₂
      (fun text row => terms.map (termValue lib (groupOf lib groupKeys rows text)) =
        row.datums.map some) out

/-- The items are the grouping columns in the order of GROUP BY, followed by the aggregates. -/
def Written (op : Operator) (groupKeys : List ℕ) (aggs : List AggRequest)
    (items : List SelectItem) : Prop :=
  (items.mapM (itemTerm lib op groupKeys)).map (·.map Term.plain) =
    some ((nodeTerms groupKeys aggs).map Term.plain)

/-- In every group the items have the values of the grouping columns followed by the aggregates. -/
def KeysFirst (op : Operator) (groupKeys : List ℕ) (aggs : List AggRequest) (items : List SelectItem)
    (rows : List Row) : Prop :=
  ∃ terms, items.mapM (itemTerm lib op groupKeys) = some terms ∧
    terms.length = (nodeTerms groupKeys aggs).length ∧
    ∀ text ∈ rows.map (keyText lib groupKeys),
      terms.map (termValue lib (groupOf lib groupKeys rows text)) =
      (nodeTerms groupKeys aggs).map (termValue lib (groupOf lib groupKeys rows text))

end Meaning

section Gathered
variable {lib : PlanLib} {groupKeys : List ℕ} {aggs : List AggRequest} {rows : List Row} {row : Row}
  {groups groups' : Groups} {group : List Row}

def Over (lib : PlanLib) (group : List Row) (agg : AggRequest) (acc : AggAccumulator) : Prop :=
  group.foldlM (aggStep lib agg) (.new agg.op) = .ok acc

abbrev Gathered (lib : PlanLib) (groupKeys : List ℕ) : List AggRequest → List Row → Groups → Prop :=
  Tracks (keyText lib groupKeys) (Over lib) groupKeys

lemma accumulateAll_cons (lib : PlanLib) (row : Row) (agg : AggRequest) (acc : AggAccumulator)
    (rest : List (AggRequest × AggAccumulator)) :
    accumulateAll lib row ((agg,acc)::rest) = do
      return (← aggStep lib agg acc row)::(← accumulateAll lib row rest) := by
  rw [accumulateAll,aggStep]
  cases agg.colIdx with
  | none => rfl
  | some idx =>
    simp only
    cases row.datums[idx]? <;> rfl

lemma accumulateAll_over {accs accs' : List AggAccumulator} (h : aggs.Forall₂ (Over lib group) accs)
    (hall : accumulateAll lib row (aggs.zip accs) = .ok accs') :
    aggs.Forall₂ (Over lib (group++[row])) accs' := by
  induction h generalizing accs' with
  | nil =>
    cases hall
    exact .nil
  | @cons agg acc aggs accs hover _ ih =>
    rw [List.zip_cons_cons,accumulateAll_cons] at hall
    obtain ⟨acc',hstep,hall⟩ := bind_eq_ok.mp hall
    obtain ⟨accs',hrest,hpure⟩ := bind_eq_ok.mp hall
    cases pure_eq_ok.mp hpure
    refine .cons ?_ (ih hrest)
    rw [Over,List.foldlM_append,hover]
    simp [bind,Except.bind,hstep,pure,Except.pure]

lemma hasText_of_addRow (hadd : Groups.addRow lib groupKeys aggs groups row = .ok groups') :
    ∃ datums, HasText lib groupKeys row datums (keyText lib groupKeys row) := by
  obtain ⟨datums,hdatums,hadd⟩ := bind_eq_ok.mp hadd
  obtain ⟨parts,hparts,-⟩ := bind_eq_ok.mp hadd
  refine ⟨datums,hdatums,?_⟩
  simp [keyText,hdatums,hparts,Except.bind,Except.map,Except.toOption]

lemma gathered_of_fold {rest : List Row} (h : Gathered lib groupKeys aggs rows groups)
    (hfold : rest.foldlM (Groups.addRow lib groupKeys aggs) groups = .ok groups') :
    Gathered lib groupKeys aggs (rows++rest) groups' := by
  induction rest generalizing rows groups with
  | nil =>
    cases hfold
    simpa using h
  | cons row rest ih =>
    rw [List.foldlM_cons] at hfold
    obtain ⟨groups₁,hadd,hfold⟩ := bind_eq_ok.mp hfold
    obtain ⟨datums,htext⟩ := hasText_of_addRow hadd
    have h₁ :=
      h.addRow (fun _ _ => rfl) htext (fun _ _ _ _ hover hall => accumulateAll_over hover hall) hadd
    simpa using ih h₁ hfold

lemma aggStep_ok {agg : AggRequest} {acc acc' : AggAccumulator} (h : aggStep lib agg acc row = .ok acc') :
    ∃ val, acc.accumulate lib val = .ok acc' := by
  rw [aggStep] at h
  cases hc : agg.colIdx with
  | none => exact ⟨_,by simpa [hc,bind,Except.bind] using h⟩
  | some idx =>
    cases hd : row.datums[idx]? with
    | none => simp [hc,hd,bind,Except.bind] at h
    | some d => exact ⟨d,by simpa [hc,hd,bind,Except.bind] using h⟩

lemma count_of_fold {c : Option ℕ} {acc acc' : AggAccumulator} (hop : acc.op = .count)
    (h : group.foldlM (aggStep lib ⟨.count,c⟩) acc = .ok acc') :
    acc'.op = .count ∧ acc'.count = acc.count+Int64.ofNat group.length := by
  induction group generalizing acc with
  | nil =>
    cases h
    exact ⟨hop,by simp⟩
  | cons row group ih =>
    rw [List.foldlM_cons] at h
    obtain ⟨acc₁,hstep,h⟩ := bind_eq_ok.mp h
    obtain ⟨val,hacc⟩ := aggStep_ok hstep
    rw [AggAccumulator.accumulate,if_pos hop] at hacc
    obtain rfl := Except.ok.inj hacc
    obtain ⟨hop',hcount⟩ := @ih { acc with count := acc.count+1 } hop h
    refine ⟨hop',hcount.trans ?_⟩
    rw [List.length_cons,Int64.ofNat_add,Int64.add_assoc,Int64.add_comm 1]
    rfl

lemma termValue_agg {agg : AggRequest} {acc : AggAccumulator} (h : Over lib group agg acc) :
    termValue lib group (.agg agg) = some acc.result := by
  obtain ⟨op,c⟩ := agg
  rw [Over] at h
  cases op with
  | count =>
    obtain ⟨hop,hcount⟩ := count_of_fold rfl h
    rw [termValue,AggAccumulator.result,if_pos hop,hcount]
    simp [AggAccumulator.new]
  | _ => simp [termValue,h,Except.map,Except.toOption]

lemma Gathered.outRow_eq (h : Gathered lib groupKeys aggs rows groups)
    {g : Bytes × List Datum × List AggAccumulator} (hg : g ∈ groups) :
    (nodeTerms groupKeys aggs).map (termValue lib (groupOf lib groupKeys rows g.1)) =
      (outRow g).datums.map some := by
  obtain ⟨first,hfirst,hdatums⟩ := h.datums g hg
  have hkeys : groupKeys.map (fun gk => termValue lib (groupOf lib groupKeys rows g.1) (.key gk)) =
    g.2.1.map some := by
    rw [← List.forall₂_eq_eq_eq,List.forall₂_map_left_iff,List.forall₂_map_right_iff]
    refine (mapM_eq_ok.mp hdatums).imp fun gk d hd => ?_
    simp only [termValue,groupOf,hfirst,Option.bind_some]
    cases hget : first.datums[gk]? with
    | none => simp [hget] at hd
    | some d' => simpa [hget] using hd
  have haggs : aggs.map (fun agg => termValue lib (groupOf lib groupKeys rows g.1) (.agg agg)) =
    (g.2.2.map (·.result)).map some := by
    rw [← List.forall₂_eq_eq_eq,List.forall₂_map_left_iff,List.map_map,List.forall₂_map_right_iff]
    exact (h.kept g hg).imp fun agg acc hover => termValue_agg hover
  rw [nodeTerms,List.map_append,List.map_map,List.map_map,outRow,List.map_append]
  exact congrArg₂ (·++·) hkeys haggs

end Gathered

section Node
variable {lib : PlanLib} {env : Env} {child op : Operator} {groupKeys : List ℕ}
  {aggs : List AggRequest} {rows out : List Row} {sel : Select}

lemma hashAgg_opened {s : AggState child.State}
    (h : (hashAggOpen lib child groupKeys aggs ⟨child.init,[],0,false⟩).Returns (.ok (),s)) :
    ∃ below groups c, child.Runs below ∧
      below.foldlM (Groups.addRow lib groupKeys aggs) [] = .ok groups ∧ s = ⟨c,groups,0,true⟩ := by
  obtain ⟨⟨r,c⟩,hopen,h⟩ := returns_bind.mp h
  cases r with
  | error e => cases returns_pure.mp h
  | ok u =>
    obtain ⟨⟨r,c'⟩,hfold,h⟩ := returns_bind.mp h
    cases r with
    | error e => cases returns_pure.mp h
    | ok groups =>
      cases returns_pure.mp h
      obtain ⟨below,hbelow,hgroups⟩ := fold_ok hfold
      exact ⟨below,groups,c',⟨c,c',hopen,hbelow⟩,hgroups,rfl⟩

lemma runs_agg (hkeys : groupKeys≠[]) (hchild : child.Runs rows)
    (h : (hashAggNode lib child groupKeys aggs).Runs out) :
    ∃ groups, rows.foldlM (Groups.addRow lib groupKeys aggs) [] = .ok groups ∧
      out = groups.map outRow := by
  obtain ⟨s,s',hopen,hs⟩ := h
  obtain ⟨below,groups,c,hbelow,hfold,rfl⟩ := hashAgg_opened hopen
  obtain rfl := hchild.unique hbelow
  exact ⟨groups,hfold,(hs.unique (streams_groups c (.inl hkeys))).1⟩

lemma hashAggSchema_length (hkeys : ∀ gk ∈ groupKeys, gk < child.schema.columns.length) :
    (hashAggNode lib child groupKeys aggs).schema.columns.length = (nodeTerms groupKeys aggs).length := by
  have hall : (groupKeys.filterMap fun gk => child.schema.columns[gk]?).length = groupKeys.length := by
    induction groupKeys with
    | nil => rfl
    | cons gk gks ih =>
      obtain ⟨hgk,hgks⟩ := List.forall_mem_cons.mp hkeys
      rw [List.filterMap_cons,List.getElem?_eq_getElem hgk]
      simpa using ih hgks
  simp [hashAggNode,hashAggSchema,nodeTerms,hall]

lemma listed_iff (hkeys : groupKeys≠[]) (hfound : ∀ gk ∈ groupKeys, gk < child.schema.columns.length)
    (hchild : child.Runs rows) (hout : (hashAggNode lib child groupKeys aggs).Runs out)
    (items : List SelectItem) :
    Listed lib op groupKeys items (hashAggNode lib child groupKeys aggs) rows out ↔
      KeysFirst lib op groupKeys aggs items rows := by
  obtain ⟨groups,hfold,rfl⟩ := runs_agg hkeys hchild hout
  have hgathered : Gathered lib groupKeys aggs rows groups := by
    simpa using gathered_of_fold Tracks.nil hfold
  have hpair : (firsts (rows.map (keyText lib groupKeys))).Forall₂ (fun text g => text = g.1 ∧
    g ∈ groups) groups := by
    rw [← hgathered.texts,List.forall₂_map_left_iff,List.forall₂_same]
    exact fun g hg => ⟨rfl,hg⟩
  rw [Listed,KeysFirst]
  refine exists_congr fun terms => and_congr_right fun _ => and_congr ?_ ?_
  · rw [hashAggSchema_length hfound]
    exact eq_comm
  · rw [List.forall₂_map_right_iff,forall₂_iff_of (T := fun text =>
      terms.map (termValue lib (groupOf lib groupKeys rows text)) =
      (nodeTerms groupKeys aggs).map (termValue lib (groupOf lib groupKeys rows text))) hpair]
    · simp only [mem_firsts]
    · rintro text - g ⟨rfl,hg⟩
      rw [Gathered.outRow_eq hgathered hg]

lemma keyIndex_lt {notFound : String} {schema : Schema} {expr : Expr} {idx : ℕ}
    (h : keyIndex notFound schema expr = .ok idx) :
    idx < schema.columns.length := by
  cases expr with
  | colName qualifier name =>
    rw [keyIndex] at h
    cases hidx : colIndex name schema with
    | none => simp [hidx] at h
    | some i =>
      obtain rfl : i = idx := by simpa [hidx] using h
      exact (List.findIdx?_eq_some_iff_getElem.mp hidx).1
  | _ => cases h

lemma groupKeys_lt {notFound : String} {schema : Schema} {exprs : List Expr}
    (h : exprs.mapM (keyIndex notFound schema) = .ok groupKeys) :
    ∀ gk ∈ groupKeys, gk < schema.columns.length := by
  have hall := mapM_eq_ok.mp h
  clear h
  induction hall with
  | nil => simp
  | cons hgk _ ih => exact List.forall_mem_cons.mpr ⟨keyIndex_lt hgk,ih⟩

lemma translateGroupBy_ok {node : Operator} (h : translateGroupBy lib child sel = .ok node) :
    ∃ groupKeys aggs,
    sel.groupBy.mapM (keyIndex "planner: GROUP BY column %q not found" child.schema) = .ok groupKeys ∧
      groupAggs lib child.schema sel.exprs = .ok aggs ∧ node = hashAggNode lib child groupKeys aggs := by
  rw [translateGroupBy] at h
  cases hkeys : sel.groupBy.mapM (keyIndex "planner: GROUP BY column %q not found" child.schema) with
  | error e => simp [hkeys] at h
  | ok groupKeys =>
    cases haggs : groupAggs lib child.schema sel.exprs with
    | error e => simp [hkeys,haggs] at h
    | ok aggs => exact ⟨groupKeys,aggs,rfl,rfl,by simpa [hkeys,haggs] using h.symm⟩

lemma translate_ok (h : translate lib env (some sel) = .ok op) : ∃ below child node keys,
      translateFrom lib env sel.fromExprs = .ok below ∧
        translateWhere lib.toGoLib below sel.where? = .ok child ∧
      (if sel.grouped lib then translateGroupBy lib child sel else
        translateProjection lib.toGoLib child sel.exprs) = .ok node ∧
      op = translateLimit (orderNode lib.toGoLib node sel.orderBy keys) sel.limit := by
  simp only [translate] at h
  cases hfrom : translateFrom lib env sel.fromExprs with
  | error e => simp [hfrom] at h
  | ok below =>
    cases hwhere : translateWhere lib.toGoLib below sel.where? with
    | error e => simp [hfrom,hwhere] at h
    | ok child =>
      simp only [hfrom,hwhere] at h
      cases hnode : (if sel.grouped lib then translateGroupBy lib child sel else
        translateProjection lib.toGoLib child sel.exprs) with
      | error e => simp [hnode] at h
      | ok node =>
        simp only [hnode] at h
        cases horder : translateOrderBy lib.toGoLib node sel.orderBy with
        | error e => simp [horder] at h
        | ok op' =>
          obtain ⟨keys,-,rfl⟩ := translateOrderBy_ok horder
          exact ⟨below,child,node,keys,rfl,hwhere,hnode,by simpa [horder] using h.symm⟩

end Node

section Exact
variable {lib : PlanLib} {child op : Operator} {groupKeys : List ℕ} {aggs : List AggRequest}
  {items : List SelectItem} {schema : Schema} {args : List Expr} {row : Row}

lemma termValue_plain (group : List Row) (t : Term) :
    termValue lib group t.plain = termValue lib group t := by
  rcases t with idx | ⟨op,c⟩
  · rfl
  · cases op <;> rfl

lemma Written.keysFirst (h : Written lib op groupKeys aggs items) (rows : List Row) :
    KeysFirst lib op groupKeys aggs items rows := by
  obtain ⟨terms,hterms,hplain⟩ := Option.map_eq_some_iff.mp h
  refine ⟨terms,hterms,by simpa using congrArg List.length hplain,fun text _ => ?_⟩
  have hvalues := congrArg (List.map (termValue lib (groupOf lib groupKeys rows text))) hplain
  simpa only [List.map_map,Function.comp_def,termValue_plain] using hvalues

/-- A column that is aggregated is there. -/
def AggRequest.Within (n : ℕ) (agg : AggRequest) : Prop :=
  match agg.colIdx with
  | none => agg.op = .count
  | some idx => idx < n

def Term.Within (n : ℕ) : Term → Prop
  | key idx => idx < n
  | agg request => request.Within n

lemma aggColRefExpr_ok {op : AggOp} {agg : AggRequest}
    (h : aggColRefExpr schema op args = .ok agg) : agg.op = op ∧ agg.Within schema.columns.length := by
  cases args with
  | nil => cases h
  | cons arg args =>
    cases arg with
    | colName qualifier name =>
      rw [aggColRefExpr] at h
      cases hidx : colIndex name schema with
      | none => simp [hidx] at h
      | some idx =>
        obtain rfl : AggRequest.mk op (some idx) = agg := by simpa [hidx] using h
        exact ⟨rfl,(List.findIdx?_eq_some_iff_getElem.mp hidx).1⟩
    | _ => cases h

lemma resolveAggregate_ok {name : Bytes} {agg : AggRequest}
    (h : resolveAggregate lib schema name args = .ok agg) :
    aggOp lib name = some agg.op ∧ agg.Within schema.columns.length := by
  rw [resolveAggregate] at h
  rw [aggOp]
  split_ifs at h ⊢
  · obtain rfl := Except.ok.inj h
    exact ⟨rfl,rfl⟩
  all_goals
    obtain ⟨hop,hwithin⟩ := aggColRefExpr_ok h
    exact ⟨congrArg some hop.symm,hwithin⟩

lemma groupAggs_within (h : groupAggs lib schema items = .ok aggs) :
    ∀ agg ∈ aggs, agg.Within schema.columns.length := by
  induction items generalizing aggs with
  | nil =>
    cases h
    simp
  | cons item items ih =>
    cases item with
    | other => cases h
    | aliased expr as => exact ih h
    | func name args as =>
      rw [groupAggs] at h
      split_ifs at h
      · obtain ⟨agg,hagg,h⟩ := bind_eq_ok.mp h
        obtain ⟨rest,hrest,h⟩ := bind_eq_ok.mp h
        cases pure_eq_ok.mp h
        exact List.forall_mem_cons.mpr ⟨(resolveAggregate_ok hagg).2,ih hrest⟩
      · exact ih h

lemma isAggregateName_of_aggOp {name : Bytes} {agg : AggOp} (h : aggOp lib name = some agg) :
    isAggregateName lib name = true := by
  rw [aggOp] at h
  simp only [isAggregateName,List.any_cons,List.any_nil,Bool.or_false,Bool.or_eq_true,decide_eq_true_eq]
  split_ifs at h <;> tauto

/-- The op of an aggregate that is listed is that of its function. -/
lemma itemTerm_func {name : Bytes} {as : Bytes} {t : Term}
    (h : itemTerm lib op groupKeys (.func name args as) = some t) :
    ∃ agg, t.op? = some agg ∧ aggOp lib name = some agg := by
  cases args with
  | nil =>
    obtain ⟨hname,ht⟩ := Option.ite_none_right_eq_some.mp h
    exact ⟨.count,by rw [← Option.some.inj ht]; rfl,hname⟩
  | cons arg args =>
    cases args with
    | cons arg' args => cases arg <;> cases h
    | nil =>
      cases arg with
      | colName qualifier col =>
        obtain ⟨agg,hname,h⟩ := Option.bind_eq_some_iff.mp h
        obtain ⟨idx,-,rfl⟩ := Option.map_eq_some_iff.mp h
        exact ⟨agg,rfl,hname⟩
      | _ => cases h

/-- The aggregates of the node are those of the select list. -/
lemma groupAggs_ops {terms : List Term} (h : groupAggs lib schema items = .ok aggs)
    (hterms : items.mapM (itemTerm lib op groupKeys) = some terms) :
    terms.filterMap Term.op? = aggs.map (·.op) := by
  induction items generalizing aggs terms with
  | nil =>
    cases h
    cases hterms
    rfl
  | cons item items ih =>
    rw [List.mapM_cons] at hterms
    obtain ⟨t,ht,hterms⟩ := Option.bind_eq_some_iff.mp hterms
    obtain ⟨ts,hts,hterms⟩ := Option.bind_eq_some_iff.mp hterms
    obtain rfl := Option.some.inj hterms
    cases item with
    | other => cases h
    | aliased expr as =>
      cases expr with
      | colName qualifier name =>
        obtain ⟨idx,-,rfl⟩ := Option.map_eq_some_iff.mp ht
        rw [List.filterMap_cons_none rfl]
        exact ih h hts
      | _ => cases ht
    | func name args as =>
      obtain ⟨agg,hop,hname⟩ := itemTerm_func ht
      rw [groupAggs,if_pos (isAggregateName_of_aggOp hname)] at h
      obtain ⟨request,hrequest,h⟩ := bind_eq_ok.mp h
      obtain ⟨rest,hrest,h⟩ := bind_eq_ok.mp h
      cases pure_eq_ok.mp h
      have hsame : agg = request.op := Option.some.inj (hname.symm.trans (resolveAggregate_ok hrequest).1)
      rw [List.filterMap_cons_some hop,ih hrest hts,hsame,List.map_cons]

/-- Different texts in all columns. -/
def lettersRow (n : ℕ) : Row := ⟨(List.range n).map fun j => textDatum (List.replicate j 65),0⟩

/-- A NULL of type string in all columns, as a left join makes them. -/
def blankRow (n : ℕ) : Row := ⟨List.replicate n ⟨.string,.nil⟩,0⟩

lemma letters_get (n idx : ℕ) :
    (lettersRow n).datums[idx]? = if idx < n then some (textDatum (List.replicate idx 65)) else none := by
  by_cases h : idx < n <;> simp [lettersRow,h]

lemma blank_get (n idx : ℕ) : (blankRow n).datums[idx]? = if idx < n then some ⟨.string,.nil⟩ else
    none := by
  simp [blankRow,List.getElem?_replicate]

lemma termValue_one (row : Row) (t : Term) : termValue lib [row] t = match t with
    | .key idx => row.datums[idx]?
    | .agg ⟨.count,_⟩ => some (intDatum 1)
    | .agg ⟨_,none⟩ => some nullDatum
    | .agg ⟨_,some idx⟩ => (row.datums[idx]?).map fun d => if d.value = .nil then nullDatum else d := by
  rcases t with idx | ⟨op,c⟩
  · simp [termValue]
  · cases op with
    | count => rfl
    | _ =>
      cases c with
      | none => rfl
      | some idx =>
        cases hd : row.datums[idx]? with
        | none => simp [termValue,aggStep,hd,bind,Except.bind,Except.map,Except.toOption]
        | some d =>
          by_cases hnil : d.value = .nil <;>
            simp [termValue,aggStep,hd,hnil,bind,Except.bind,pure,Except.pure,Except.map,Except.toOption,
              AggAccumulator.accumulate,AggAccumulator.new,AggAccumulator.result]

/-- The same column, or two aggregates of the same column. -/
def Alike (t t' : Term) : Prop := t.op?.isSome = t'.op?.isSome ∧ (t.op? = t'.op? → t.plain = t'.plain)

/-- Both rows together tell the terms apart, up to the functions of the aggregates. -/
lemma plain_of_values {n : ℕ} {t t' : Term} (hwithin : t'.Within n)
    (hletters : termValue lib [lettersRow n] t = termValue lib [lettersRow n] t')
    (hblank : termValue lib [blankRow n] t = termValue lib [blankRow n] t') :
    Alike t t' := by
  rw [termValue_one,termValue_one] at hletters hblank
  rcases t' with k | ⟨op',c'⟩
  · have hk : k < n := hwithin
    rcases t with i | ⟨op,c⟩
    · refine ⟨rfl,fun _ => congrArg Term.key ?_⟩
      have hsame : i < n ∧ i = k := by simpa [letters_get,hk,textDatum] using hletters
      exact hsame.2
    · -- an aggregate has no text in one of the two rows
      exfalso
      cases op <;> cases c <;>
        simp [letters_get,blank_get,hk,textDatum,intDatum,nullDatum] at hletters hblank
  · have hc : AggRequest.Within n ⟨op',c'⟩ := hwithin
    rcases t with i | ⟨op,c⟩
    · exfalso
      cases op' <;> cases c' <;> simp [AggRequest.Within] at hc <;>
        simp [letters_get,blank_get,hc,textDatum,intDatum,nullDatum] at hletters hblank
    · refine ⟨rfl,fun hop => ?_⟩
      obtain rfl : op = op' := Option.some.inj hop
      by_cases hcount : op = .count
      · subst hcount
        rfl
      · refine congrArg (fun c => (Term.agg ⟨op,c⟩).plain) ?_
        cases op <;> cases c' <;> simp [AggRequest.Within] at hc hcount <;> cases c <;>
          simp [letters_get,hc,textDatum,nullDatum] at hletters ⊢ <;> exact hletters.2

lemma alike_of_values {n : ℕ} {terms terms' : List Term} (hwithin : ∀ t ∈ terms', t.Within n)
    (hletters : terms.map (termValue lib [lettersRow n]) = terms'.map (termValue lib [lettersRow n]))
    (hblank : terms.map (termValue lib [blankRow n]) = terms'.map (termValue lib [blankRow n])) :
    terms.Forall₂ Alike terms' := by
  induction terms generalizing terms' with
  | nil =>
    obtain rfl : terms' = [] := by simpa using hletters.symm
    exact .nil
  | cons t ts ih =>
    cases terms' with
    | nil => cases hletters
    | cons t' ts' =>
      obtain ⟨hletter,hletters⟩ := List.cons.inj hletters
      obtain ⟨hblank,hblanks⟩ := List.cons.inj hblank
      obtain ⟨hwithin,hrest⟩ := List.forall_mem_cons.mp hwithin
      exact .cons (plain_of_values hwithin hletter hblank) (ih hrest hletters hblanks)

lemma map_plain {terms terms' : List Term}
    (h : terms.Forall₂ Alike terms') (hops : terms.filterMap Term.op? = terms'.filterMap Term.op?) :
    terms.map Term.plain = terms'.map Term.plain := by
  induction h with
  | nil => rfl
  | @cons t t' ts ts' ht _ ih =>
    obtain ⟨hsome,hplain⟩ := ht
    cases hop : t.op? with
    | none =>
      have hop' : t'.op? = none := by simpa [hop] using hsome
      rw [List.filterMap_cons_none hop,List.filterMap_cons_none hop'] at hops
      rw [List.map_cons,List.map_cons,hplain (hop.trans hop'.symm),ih hops]
    | some agg =>
      obtain ⟨agg',hop'⟩ : ∃ agg', t'.op? = some agg' :=
        Option.isSome_iff_exists.mp (by rw [← hsome,hop]; rfl)
      rw [List.filterMap_cons_some hop,List.filterMap_cons_some hop'] at hops
      obtain ⟨rfl,hrest⟩ := List.cons.inj hops
      rw [List.map_cons,List.map_cons,hplain (hop.trans hop'.symm),ih hrest]

/-- A table with one row. -/
def oneRowScan (schema : Schema) (row : Row) : Operator :=
  seqScanNode ⟨fun _ => .ok ⟨[.ok ([],row.rowID)],.ok ()⟩⟩ (fun _ _ => .ok row.datums) schema ⟨0,0⟩

lemma oneRowScan_runs (schema : Schema) (row : Row) : (oneRowScan schema row).Runs [row] := by
  refine ⟨_,_,returns_pure.mpr rfl,.cons (returns_pure.mpr rfl) ⟨_,.nil,returns_pure.mpr rfl⟩⟩

lemma aggStep_new {agg : AggRequest} (h : agg.Within row.datums.length) :
    ∃ acc, aggStep lib agg (.new agg.op) row = .ok acc := by
  have hnew : ∀ val, ∃ acc, (AggAccumulator.new agg.op).accumulate lib val = .ok acc := by
    intro val
    rw [AggAccumulator.accumulate]
    split_ifs
    · exact ⟨_,rfl⟩
    · exact ⟨_,rfl⟩
    · exact ⟨_,rfl⟩
    · contradiction
  obtain ⟨op,c⟩ := agg
  cases c with
  | none => exact hnew nullDatum
  | some idx =>
    have hidx : idx < row.datums.length := h
    obtain ⟨acc,hacc⟩ := hnew row.datums[idx]
    refine ⟨acc,?_⟩
    simp only [aggStep,List.getElem?_eq_getElem hidx]
    exact hacc

lemma accumulateAll_new (haggs : ∀ agg ∈ aggs, agg.Within row.datums.length) :
    ∃ accs, accumulateAll lib row (aggs.zip (aggs.map fun agg => .new agg.op)) = .ok accs := by
  induction aggs with
  | nil => exact ⟨[],rfl⟩
  | cons agg aggs ih =>
    obtain ⟨hagg,haggs⟩ := List.forall_mem_cons.mp haggs
    obtain ⟨acc,hacc⟩ := aggStep_new hagg
    obtain ⟨accs,haccs⟩ := ih haggs
    refine ⟨acc::accs,?_⟩
    rw [List.map_cons,List.zip_cons_cons,accumulateAll_cons,hacc,haccs]
    rfl

lemma node_runs_one (hkeys : groupKeys≠[]) (hfound : ∀ gk ∈ groupKeys, gk < row.datums.length)
    (haggs : ∀ agg ∈ aggs, agg.Within row.datums.length)
    (hwritten : ∀ d ∈ row.datums, ∃ b, serializeDatum lib d = .ok b)
    (schema : Schema) : ∃ out, (hashAggNode lib (oneRowScan schema row) groupKeys aggs).Runs out := by
  obtain ⟨datums,hdatums⟩ : ∃ datums, groupDatums groupKeys row = .ok datums :=
    exists_mapM fun gk hgk => ⟨_,by rw [List.getElem?_eq_getElem (hfound gk hgk)]⟩
  obtain ⟨parts,hparts⟩ : ∃ parts, datums.mapM (serializeDatum lib) = .ok parts := by
    refine exists_mapM fun d hd => hwritten d ?_
    obtain ⟨gk,-,hget⟩ := forall₂_mem (mapM_eq_ok.mp hdatums) hd
    cases hd' : row.datums[gk]? with
    | none => simp [hd'] at hget
    | some d' =>
      obtain rfl : d' = d := by simpa [hd'] using hget
      exact List.mem_of_getElem? hd'
  obtain ⟨accs,haccs⟩ : ∃ accs, accumulateAll lib row (aggs.zip (aggs.map fun agg => .new agg.op)) =
    .ok accs :=
    accumulateAll_new haggs
  have hfold : [row].foldlM (Groups.addRow lib groupKeys aggs) [] = .ok [(joinKey parts,datums,accs)] := by
    simp [addRow_eq ⟨hdatums,map_eq_ok.mpr ⟨parts,hparts,rfl⟩⟩,haccs,bind,Except.bind,pure,Except.pure]
  obtain ⟨c,hopen⟩ := hashAgg_opens lib groupKeys aggs (oneRowScan_runs schema row) hfold
  exact ⟨_,_,_,hopen,streams_groups c (.inl hkeys)⟩

lemma keysFirst_one (h : KeysFirst lib op groupKeys aggs items [row]) :
    ∃ terms, items.mapM (itemTerm lib op groupKeys) = some terms ∧
      terms.map (termValue lib [row]) = (nodeTerms groupKeys aggs).map (termValue lib [row]) := by
  obtain ⟨terms,hterms,-,hvalues⟩ := h
  have hgroup : groupOf lib groupKeys [row] (keyText lib groupKeys row) = [row] := by simp [groupOf]
  exact ⟨terms,hterms,hgroup ▸ hvalues _ (List.mem_singleton.mpr rfl)⟩

/-- If the items have the values of the node's columns in a table with one row of texts and in one
with a row of NULLs, they are written in the order of the columns. -/
lemma written_of_rows (hfound : ∀ gk ∈ groupKeys, gk < schema.columns.length)
    (haggs : groupAggs lib schema items = .ok aggs)
    (hletters : KeysFirst lib op groupKeys aggs items [lettersRow schema.columns.length])
    (hblank : KeysFirst lib op groupKeys aggs items [blankRow schema.columns.length]) :
    Written lib op groupKeys aggs items := by
  obtain ⟨terms,hterms,hletters⟩ := keysFirst_one hletters
  obtain ⟨terms',hterms',hblank⟩ := keysFirst_one hblank
  obtain rfl := Option.some.inj (hterms.symm.trans hterms')
  have hops : terms.filterMap Term.op? = (nodeTerms groupKeys aggs).filterMap Term.op? := by
    rw [groupAggs_ops haggs hterms,nodeTerms,List.filterMap_append,List.filterMap_map,List.filterMap_map]
    simp [Function.comp_def,Term.op?]
  rw [Written,hterms]
  refine congrArg some (map_plain (alike_of_values (fun t ht => ?_) hletters hblank) hops)
  obtain ht | ht := List.mem_append.mp ht
  · obtain ⟨gk,hgk,rfl⟩ := List.mem_map.mp ht
    exact hfound gk hgk
  · obtain ⟨agg,hagg,rfl⟩ := List.mem_map.mp ht
    exact groupAggs_within haggs agg hagg

end Exact

section Node
variable {lib : PlanLib} {env : Env} {child op : Operator} {groupKeys : List ℕ}
  {aggs : List AggRequest} {rows out : List Row} {sel : Select}

end Node

/-- SELECT ... FROM t GROUP BY b -/
def byName (items : List SelectItem) : Select where
  fromExprs := [.aliased (some (ascii "t")) []]
  where? := none
  groupBy := [.colName [] (ascii "b")]
  exprs := items
  orderBy := []
  limit := none

def nameItem : SelectItem := .aliased (.colName [] (ascii "b")) []
def numberItem : SelectItem := .aliased (.colName [] (ascii "a")) []
def countItem : SelectItem := .func (ascii "count") [.colName [] (ascii "a")] []

def pairsScan : Operator := seqScanNode pairsTable.heap pairsEnv.decoder pairsSchema pairsEnv.tx

lemma translateFrom_pairs :
    translateFrom plainPlanLib pairsEnv [.aliased (some (ascii "t")) []] = .ok pairsScan := by
  have hnamed := pairsTable.named
  have hfound := pairsTable.found
  have hdecoded := pairsTable.decoded
  have hopened := pairsTable.opened
  simp only [pairsTable] at hnamed hfound hdecoded hopened
  simp only [translateFrom,translateTableExpr,translateAliasedTable,hnamed,hfound,hdecoded,hopened,
    crossJoin]
  rfl

end Plomvix.Planner
