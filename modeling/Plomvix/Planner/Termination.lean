import Plomvix.Planner.SelectList

/-! Every operator of a plan comes to its end when those below it do, except a global aggregate over
no rows. -/
namespace Plomvix.Planner
open Lib Engine Plomvix.Lib.Comp Plomvix.Lib.Cursor Plomvix.Lib.Fallible

/-- From this state it opens or fails, and when it is open it comes to its end. -/
def Operator.EndsFrom (op : Operator) (s : op.State) : Prop :=
  (op.openNode s).Gives fun (r,s') => r = .ok () → Ends op.next s'

/-- Opened and drained, the plan comes to an end. -/
def Operator.Terminates (op : Operator) : Prop := op.EndsFrom op.init

/-- The same from every state, as a join asks of its children. -/
def Operator.Finite (op : Operator) : Prop := ∀ s, op.EndsFrom s

section Unary
variable {lib : GoLib} {child : Operator}

lemma seqScan_finite (heap : TableHeap) (decoder : RowDecoder) (schema : Schema) (tx : TxContext) :
    (seqScanNode heap decoder schema tx).Finite := by
  have hends : ∀ (tuples : List (Except Err (Bytes × UInt64))) close,
    Ends (seqScanNext decoder schema) (some ⟨tuples,close⟩) := by
    intro tuples close
    induction tuples with
    | nil => exact .eof (returns_pure.mpr rfl)
    | cons t tuples ih =>
      refine .of_gives ?_
      cases t with
      | error e => exact .pure trivial
      | ok p =>
        simp only [seqScanNext]
        split
        · exact .pure trivial
        · exact .pure ih
  intro s
  simp only [Operator.EndsFrom,seqScanNode,seqScanOpen]
  split
  · exact .pure (by simp)
  · exact .pure fun _ => hends _ _

lemma filter_endsFrom {s : child.State} {pred : BoundExpr} (h : child.EndsFrom s) :
    (filterNode lib child pred).EndsFrom s := by
  obtain ⟨r,hr,hs⟩ := h
  exact ⟨r,hr,fun hok => (hs hok).filter⟩

lemma project_endsFrom {s : child.State} {exprs : List ProjectionExpr} {outSchema : Schema}
    (h : child.EndsFrom s) :
    (projectNode lib child exprs outSchema).EndsFrom s := by
  obtain ⟨r,hr,hs⟩ := h
  exact ⟨r,hr,fun hok => (hs hok).map⟩

lemma limit_ends {σ : Type} {childNext : σ → Comp (Answer Err Row × σ)} {c : σ}
    (limit offset : Int64) (skipped emitted : ℕ)
    (h : Ends childNext c) : LoopEnds (limitBody childNext limit offset) ⟨c,skipped,emitted⟩ := by
  induction h generalizing skipped emitted with
  | eof h => exact .eof (returns_bind.mpr ⟨_,h,returns_pure.mpr rfl⟩)
  | err h => exact .err (returns_bind.mpr ⟨_,h,returns_pure.mpr rfl⟩)
  | row h _ ih =>
    refine .of_gives (Gives.bind ⟨_,h,rfl⟩ ?_)
    rintro _ rfl
    simp only
    split_ifs
    · exact .pure (ih _ _)
    · exact .pure trivial
    · exact .pure (ih _ _)

lemma limit_endsFrom {limit offset : Int64} {s : (limitNode child limit offset).State}
    (h : child.EndsFrom s.child) :
    (limitNode child limit offset).EndsFrom s :=
  Gives.bind h fun _ hs => .pure fun hok => (limit_ends limit offset 0 0 (hs hok)).ends

lemma sort_endsFrom {keys : List SortKey} {s : (sortNode lib child keys).State}
    (h : child.EndsFrom s.child) :
    (sortNode lib child keys).EndsFrom s := by
  refine Gives.bind h ?_
  rintro ⟨r,c⟩ hs
  cases r with
  | error e => exact .pure (by simp)
  | ok u =>
    refine Gives.bind ((hs rfl).fold_returns _ []) ?_
    rintro ⟨r,c'⟩ -
    cases r with
    | error e => exact .pure (by simp)
    | ok rows =>
      simp only
      split
      · exact .pure (by simp)
      · rename_i sorted _
        obtain ⟨t,ht⟩ := streams_sorted c' sorted 0
        exact .pure fun _ => ht.ends

end Unary

section NestedLoop
variable {lib : GoLib} {left right : Operator} {cond : Option BoundExpr} {isLeftJoin : Bool}

/-- The left child ends after its next answer, and the loop with it. -/
def LeftEnds (lib : GoLib) (left right : Operator) (cond : Option BoundExpr) (isLeftJoin : Bool) :
    Answer Err Row × left.State → Prop
  | (.row lr,l) =>
    ∀ r, Ends right.next r →
      LoopEnds (nestedLoopBody lib left right cond isLeftJoin) ⟨l,r,lr.datums,false⟩
  | _ => True

lemma nestedLoop_no_row (l : left.State) (r : right.State) (leftMatched : Bool) :
    LoopEnds (nestedLoopBody lib left right cond isLeftJoin) ⟨l,r,[],leftMatched⟩ :=
  .eof (returns_pure.mpr rfl)

lemma nestedLoopAdvance_ends (hright : right.Finite) {l : left.State}
    (hl : (left.next l).Gives (LeftEnds lib left right cond isLeftJoin))
    (r : right.State) (leftRow : List Datum) (leftMatched : Bool) :
    (nestedLoopAdvance left right isLeftJoin ⟨l,r,leftRow,leftMatched⟩).Gives
      (RoundEnds (nestedLoopBody lib left right cond isLeftJoin)) := by
  simp only [nestedLoopAdvance]
  split
  · exact .pure trivial
  · refine Gives.bind (hright (right.close r).2) ?_
    rintro ⟨opened,r'⟩ hr
    cases opened with
    | error e => exact .pure trivial
    | ok u =>
      refine Gives.bind hl ?_
      rintro ⟨answer,l'⟩ hl'
      cases answer with
      | eof =>
        refine .pure ?_
        split_ifs
        · exact nestedLoop_no_row l' r' leftMatched
        · trivial
      | err e => exact .pure trivial
      | row lr =>
        simp only
        split_ifs
        · exact .pure (hl' r' (hr rfl))
        · exact .pure (hl' r' (hr rfl))

lemma nestedLoop_inner (hright : right.Finite) {l : left.State}
    (hl : (left.next l).Gives (LeftEnds lib left right cond isLeftJoin))
    {r : right.State} (hr : Ends right.next r) (leftRow : List Datum) (leftMatched : Bool) :
    LoopEnds (nestedLoopBody lib left right cond isLeftJoin) ⟨l,r,leftRow,leftMatched⟩ := by
  by_cases hrow : leftRow = []
  · subst hrow
    exact nestedLoop_no_row l r leftMatched
  induction hr generalizing leftMatched with
  | @eof r r' h =>
    refine .of_gives ?_
    simp only [nestedLoopBody,hrow,if_false]
    refine Gives.bind ⟨_,h,rfl⟩ ?_
    rintro _ rfl
    exact nestedLoopAdvance_ends hright hl r' leftRow leftMatched
  | err h =>
    refine .of_gives ?_
    simp only [nestedLoopBody,hrow,if_false]
    refine Gives.bind ⟨_,h,rfl⟩ ?_
    rintro _ rfl
    exact .pure trivial
  | row h _ ih =>
    refine .of_gives ?_
    simp only [nestedLoopBody,hrow,if_false]
    refine Gives.bind ⟨_,h,rfl⟩ ?_
    rintro _ rfl
    simp only
    split
    · exact .pure trivial
    · exact .pure (ih true)
    · exact .pure (ih leftMatched)

lemma nestedLoop_left (lib : GoLib) (cond : Option BoundExpr) (isLeftJoin : Bool)
    (hright : right.Finite) {l : left.State} (hl : Ends left.next l) :
    (left.next l).Gives (LeftEnds lib left right cond isLeftJoin) := by
  induction hl with
  | eof h => exact ⟨_,h,trivial⟩
  | err h => exact ⟨_,h,trivial⟩
  | @row l l' lr h _ ih => exact ⟨_,h,fun r hr => nestedLoop_inner hright ih hr lr.datums false⟩

lemma nestedLoop_finite (hleft : left.Finite) (hright : right.Finite) :
    (nestedLoopJoinNode lib left right cond isLeftJoin).Finite := by
  intro s
  refine Gives.bind (hleft s.left) ?_
  rintro ⟨opened,l⟩ hl
  cases opened with
  | error e => exact .pure (by simp)
  | ok u =>
    refine Gives.bind (hright s.right) ?_
    rintro ⟨opened,r⟩ hr
    cases opened with
    | error e => exact .pure (by simp)
    | ok u =>
      refine Gives.bind (nestedLoop_left lib cond isLeftJoin hright (hl rfl)) ?_
      rintro ⟨answer,l'⟩ hl'
      cases answer with
      | eof => exact .pure fun _ => (nestedLoop_no_row l' r s.leftMatched).ends
      | err e => exact .pure (by simp)
      | row lr => exact .pure fun _ => (hl' r (hr rfl)).ends

end NestedLoop

section Hash
variable {lib : PlanLib} {left right : Operator} {leftKey rightKey : ℕ} {isLeftJoin : Bool}
  {residual : Option BoundExpr}

/-- The left child ends after its next answer, and the loop with it. -/
def ProbeEnds (lib : PlanLib) (left right : Operator) (leftKey : ℕ) (isLeftJoin : Bool)
    (residual : Option BoundExpr) :
    Answer Err Row × left.State → Prop
  | (.row _,l) =>
    ∀ s : HashState left.State right.State, s.left = l →
      LoopEnds (hashBody lib left right leftKey isLeftJoin residual) s
  | _ => True

lemma hash_probe {s : HashState left.State right.State}
    (hl : (left.next s.left).Gives (ProbeEnds lib left right leftKey isLeftJoin residual))
    (hnone : s.activeMatches[s.matchIdx]? = none)
    (hpad : (isLeftJoin && decide (s.activeProbe≠[]) && !s.matchedAny) = false) :
    LoopEnds (hashBody lib left right leftKey isLeftJoin residual) s := by
  refine .of_gives ?_
  simp only [hashBody,hnone,hpad,Bool.false_eq_true,if_false]
  refine Gives.bind hl ?_
  rintro ⟨answer,l⟩ hl'
  cases answer with
  | eof => exact .pure trivial
  | err e => exact .pure trivial
  | row pr =>
    simp only
    split
    · exact .pure trivial
    · split_ifs
      · exact .pure (hl' _ rfl)
      · exact .pure (hl' _ rfl)

lemma hash_matched {s : HashState left.State right.State}
    (hl : (left.next s.left).Gives (ProbeEnds lib left right leftKey isLeftJoin residual))
    (hnone : s.activeMatches[s.matchIdx]? = none) :
    LoopEnds (hashBody lib left right leftKey isLeftJoin residual) s := by
  cases hpad : (isLeftJoin && decide (s.activeProbe≠[]) && !s.matchedAny) with
  | false => exact hash_probe hl hnone hpad
  | true =>
    refine .of_gives ?_
    simp only [hashBody,hnone,hpad,if_true]
    exact .pure (hash_probe hl hnone (by simp))

lemma hash_inner (s : HashState left.State right.State)
    (hl : (left.next s.left).Gives (ProbeEnds lib left right leftKey isLeftJoin residual)) :
    LoopEnds (hashBody lib left right leftKey isLeftJoin residual) s := by
  induction hn : s.activeMatches.length-s.matchIdx generalizing s with
  | zero => exact hash_matched hl (List.getElem?_eq_none (by omega))
  | succ n ih =>
    have hlt : s.matchIdx < s.activeMatches.length := by omega
    refine .of_gives ?_
    simp only [hashBody,List.getElem?_eq_getElem hlt]
    split
    · exact .pure trivial
    · exact .pure (ih _ hl (by simp only; omega))
    · exact .pure (ih _ hl (by simp only; omega))

lemma hash_left {l : left.State} (hl : Ends left.next l) :
    (left.next l).Gives (ProbeEnds lib left right leftKey isLeftJoin residual) := by
  induction hl with
  | eof h => exact ⟨_,h,trivial⟩
  | err h => exact ⟨_,h,trivial⟩
  | row h _ ih =>
    refine ⟨_,h,?_⟩
    rintro s rfl
    exact hash_inner s ih

lemma hash_finite (hleft : left.Finite) (hright : right.Finite) :
    (hashJoinNode lib left right leftKey rightKey isLeftJoin residual).Finite := by
  intro s
  refine Gives.bind (hleft s.left) ?_
  rintro ⟨opened,l⟩ hl
  cases opened with
  | error e => exact .pure (by simp)
  | ok u =>
    refine Gives.bind (hright s.right) ?_
    rintro ⟨opened,r⟩ hr
    cases opened with
    | error e => exact .pure (by simp)
    | ok u =>
      refine Gives.bind ((hr rfl).fold_returns _ []) ?_
      rintro ⟨table,r'⟩ -
      cases table with
      | error e => exact .pure (by simp)
      | ok table => exact .pure fun _ => (hash_inner _ (hash_left (hl rfl))).ends

end Hash

section Agg
variable {lib : PlanLib} {child : Operator} {groupKeys : List ℕ} {aggs : List AggRequest}
  {rows : List Row} {groups : Groups}

lemma groups_ne_nil (hfold : rows.foldlM (Groups.addRow lib groupKeys aggs) [] = .ok groups)
    (hrows : rows≠[]) : groups≠[] := by
  intro hnil
  have htexts := (gathered_of_fold Tracks.nil hfold).texts
  rw [hnil,List.nil_append] at htexts
  exact hrows (List.map_eq_nil_iff.mp (firsts_eq_nil.mp htexts.symm))

lemma agg_terminates (h : child.Terminates) (hrows : groupKeys≠[] ∨ ¬ child.Runs []) :
    (hashAggNode lib child groupKeys aggs).Terminates := by
  obtain ⟨⟨r,c⟩,hopen,hc⟩ := h
  cases r with
  | error e => exact ⟨_,returns_bind.mpr ⟨_,hopen,returns_pure.mpr rfl⟩,by simp⟩
  | ok u =>
    obtain ⟨⟨r,c'⟩,hfold,-⟩ := (hc rfl).fold_returns (Groups.addRow lib groupKeys aggs) []
    cases r with
    | error e =>
      exact ⟨_,returns_bind.mpr ⟨_,hopen,returns_bind.mpr ⟨_,hfold,returns_pure.mpr rfl⟩⟩,by simp⟩
    | ok groups =>
      refine ⟨_,returns_bind.mpr ⟨_,hopen,returns_bind.mpr ⟨_,hfold,returns_pure.mpr rfl⟩⟩,fun _ =>
        (streams_groups c' ?_).ends⟩
      obtain ⟨rows,hrows',hgroups⟩ := fold_ok hfold
      refine hrows.imp_right fun hno => groups_ne_nil hgroups ?_
      rintro rfl
      exact hno ⟨c,c',hopen,hrows'⟩

lemma global_one_row {s : AggState child.State} (hrows : ¬ child.Runs [])
    (hopen : ((hashAggNode lib child [] aggs).openNode (hashAggNode lib child [] aggs).init).Returns
      (.ok (),s)) :
    ∃ row s', Streams (hashAggNode lib child [] aggs).next s [row] s' := by
  obtain ⟨below,groups,c,hbelow,hfold,rfl⟩ := hashAgg_opened hopen
  have hne : below≠[] := by
    rintro rfl
    exact hrows hbelow
  have htexts := (gathered_of_fold Tracks.nil hfold).texts
  have hone : firsts (below.map (keyText lib [])) = [[]] := by
    refine firsts_of_const (by simpa using hne) fun text htext => ?_
    obtain ⟨row,-,rfl⟩ := List.mem_map.mp htext
    rfl
  rw [List.nil_append,hone] at htexts
  obtain ⟨g,rfl⟩ :=
    List.length_eq_one_iff.mp (by simpa using congrArg List.length htexts : groups.length = 1)
  exact ⟨outRow g,_,streams_groups c (.inr (by simp))⟩

end Agg

section Plan
variable {lib : PlanLib} {env : Env}

lemma translateAliasedTable_finite {name : Option Bytes} {op : Operator}
    (h : translateAliasedTable env name = .ok op) : op.Finite := by
  unfold translateAliasedTable at h
  repeat' split at h
  all_goals first | cases h; done | skip
  cases h
  exact seqScan_finite _ _ _ _

lemma buildJoin_finite {left right : Operator} {cond : Option BoundExpr} {rawCond : Option Expr}
    {isLeftJoin : Bool} (hleft : left.Finite)
    (hright : right.Finite) : (buildJoin lib left right cond rawCond isLeftJoin).Finite := by
  unfold buildJoin
  repeat' split
  all_goals first | exact nestedLoop_finite hleft hright | exact hash_finite hleft hright

lemma translateTableExpr_finite {te : TableExpr} {op : Operator}
    (h : translateTableExpr lib env te = .ok op) : op.Finite := by
  induction te generalizing op with
  | aliased name as => exact translateAliasedTable_finite h
  | join kind leftExpr rightExpr on ihl ihr =>
    rw [translateTableExpr] at h
    split_ifs at h
    cases hleft : translateTableExpr lib env leftExpr with
    | error e => simp [hleft] at h
    | ok left =>
      cases hright : translateTableExpr lib env rightExpr with
      | error e => simp [hleft,hright] at h
      | ok right =>
        cases hon : bindOn lib.toGoLib left right on with
        | error e => simp [hleft,hright,hon] at h
        | ok cond =>
          obtain rfl : buildJoin lib left right cond on (decide (kind = .left)) = op := by
            simpa [hleft,hright,hon] using h
          exact buildJoin_finite (ihl hleft) (ihr hright)
  | other => cases h

lemma crossJoin_finite {rest : List TableExpr} {left op : Operator} (hleft : left.Finite)
    (h : crossJoin lib env left rest = .ok op) : op.Finite := by
  induction rest generalizing left with
  | nil =>
    cases h
    exact hleft
  | cons te rest ih =>
    rw [crossJoin] at h
    cases hright : translateTableExpr lib env te with
    | error e => simp [hright] at h
    | ok right =>
      rw [hright] at h
      exact ih (nestedLoop_finite hleft (translateTableExpr_finite hright)) h

lemma translateFrom_finite {exprs : List TableExpr} {op : Operator}
    (h : translateFrom lib env exprs = .ok op) : op.Finite := by
  cases exprs with
  | nil => cases h
  | cons te rest =>
    rw [translateFrom] at h
    cases hleft : translateTableExpr lib env te with
    | error e => simp [hleft] at h
    | ok left =>
      rw [hleft] at h
      exact crossJoin_finite (translateTableExpr_finite hleft) h

lemma translateWhere_finite {lib : GoLib} {where? : Option Expr} {below op : Operator}
    (hbelow : below.Finite)
    (h : translateWhere lib below where? = .ok op) : op.Finite := by
  obtain ⟨pred,-,rfl⟩ := translateWhere_ok h
  cases pred with
  | none => exact hbelow
  | some pred => exact fun s => filter_endsFrom (hbelow s)

lemma order_terminates {lib : GoLib} {op : Operator} {orders : List Order} {keys : List SortKey}
    (h : op.Terminates) :
    (orderNode lib op orders keys).Terminates := by
  rw [orderNode]
  split_ifs
  · exact h
  · exact sort_endsFrom h

lemma limit_terminates {op : Operator} {limit : Option Limit} (h : op.Terminates) :
    (translateLimit op limit).Terminates := by
  cases limit with
  | none => exact h
  | some limit => exact limit_endsFrom h

end Plan

namespace Select
variable (lib : PlanLib) (env : Env) (sel : Select)

/-- What FROM and WHERE yield. -/
def input : Except Err Operator := do
  translateWhere lib.toGoLib (← translateFrom lib env sel.fromExprs) sel.where?

/-- Aggregates without GROUP BY. -/
def global : Prop := sel.groupBy = [] ∧ hasAggregates lib sel.exprs = true

/-- When the node of a global aggregate is open, it yields one row and comes to its end. -/
def OneRow : Prop :=
  sel.global lib → ∀ child aggs s, sel.input lib env = .ok child →
    groupAggs lib child.schema sel.exprs = .ok aggs →
    ((hashAggNode lib child [] aggs).openNode (hashAggNode lib child [] aggs).init).Returns (.ok (),s) →
      ∃ row s', Streams (hashAggNode lib child [] aggs).next s [row] s'

end Select

/-- The plan of a SELECT comes to its end, and a global aggregate yields exactly one row, exactly if
it is not a global aggregate over no rows. -/
theorem plan_ends_iff (lib : PlanLib) (env : Env) (sel : Select) (op : Operator)
    (h : translate lib env (some sel) = .ok op) :
    op.Terminates ∧ sel.OneRow lib env ↔
      ¬ (sel.global lib ∧ ∃ child, sel.input lib env = .ok child ∧ child.Runs []) := by
  obtain ⟨below,child,node,keys,hfrom,hwhere,hnode,rfl⟩ := translate_ok h
  have hinput : sel.input lib env = .ok child := by
    rw [Select.input,hfrom]
    exact hwhere
  have hchild : child.Terminates := translateWhere_finite (translateFrom_finite hfrom) hwhere child.init
  constructor
  · rintro ⟨-,hone⟩ ⟨hglobal,child',hinput',hempty⟩
    obtain rfl := Except.ok.inj (hinput.symm.trans hinput')
    rw [if_pos (by simp [Select.grouped,hglobal.2])] at hnode
    obtain ⟨groupKeys,aggs,hkeys,haggs,rfl⟩ := translateGroupBy_ok hnode
    obtain ⟨c,hopen⟩ := hashAgg_opens lib [] aggs hempty rfl
    obtain ⟨row,s',hs⟩ := hone hglobal child aggs _ hinput haggs hopen
    exact agg_never_ends hempty ⟨_,_,hopen,hs⟩
  · intro hnot
    refine ⟨limit_terminates (order_terminates ?_),?_⟩
    · split_ifs at hnode with hgrouped
      · obtain ⟨groupKeys,aggs,hkeys,haggs,rfl⟩ := translateGroupBy_ok hnode
        refine agg_terminates hchild ?_
        by_cases hgroup : sel.groupBy = []
        · refine .inr fun hempty => hnot ⟨⟨hgroup,?_⟩,child,hinput,hempty⟩
          simpa [Select.grouped,hgroup] using hgrouped
        · left
          rintro rfl
          exact hgroup (List.forall₂_nil_right_iff.mp (mapM_eq_ok.mp hkeys))
      · obtain ⟨projs,-,rfl⟩ := translateProjection_ok hnode
        exact project_endsFrom hchild
    · intro hglobal child' aggs s hinput' haggs hopen
      exact global_one_row (fun hempty => hnot ⟨hglobal,child',hinput',hempty⟩) hopen

/-- SELECT COUNT(a) FROM t -/
def countNumbers : Select where
  fromExprs := [.aliased (some (ascii "t")) []]
  where? := none
  groupBy := []
  exprs := [countItem]
  orderBy := []
  limit := none

lemma pairsScan_runs : pairsScan.Runs pairs :=
  ⟨some pairsIter,_,returns_pure.mpr rfl,streams_scan pairsTable.read⟩

theorem plan_ends_pairs : ∃ op, translate plainPlanLib pairsEnv (some countNumbers) = .ok op ∧
      op.Terminates ∧ countNumbers.OneRow plainPlanLib pairsEnv := by
  obtain ⟨op,hop,-⟩ := runs_of_answer 20 (show answer plainPlanLib pairsEnv countNumbers 20 =
    some (.ok [⟨[intDatum 3],0⟩]) by decide +kernel)
  refine ⟨op,hop,(plan_ends_iff plainPlanLib pairsEnv countNumbers op hop).mpr ?_⟩
  rintro ⟨-,child,hinput,hempty⟩
  have hscan : countNumbers.input plainPlanLib pairsEnv = .ok pairsScan := by
    rw [Select.input]
    simp only [countNumbers,translateFrom_pairs]
    rfl
  obtain rfl := Except.ok.inj (hscan.symm.trans hinput)
  cases pairsScan_runs.unique hempty

/-- The table without its rows. -/
def emptyEnv : Env := { pairsEnv with getTableHeap := fun _ => .ok ⟨fun _ => .ok ⟨[],.ok ()⟩⟩ }

def emptyScan : Operator := seqScanNode ⟨fun _ => .ok ⟨[],.ok ()⟩⟩ decodeRow pairsSchema ⟨1,0⟩

lemma emptyScan_runs : emptyScan.Runs [] := ⟨some ⟨[],.ok ()⟩,_,returns_pure.mpr rfl,streams_scan .nil⟩

/-- A count over no rows is put out again and again. -/
theorem count_never_ends : ∃ op s, translate plainPlanLib emptyEnv (some countNumbers) = .ok op ∧
      (op.openNode op.init).Returns (.ok (),s) ∧
    ¬ Ends op.next s := by
  have hfrom : translateFrom plainPlanLib emptyEnv [.aliased (some (ascii "t")) []] = .ok emptyScan := by
    have hnamed := pairsTable.named
    have hfound : emptyEnv.getTable (ascii "t") = .ok pairsInfo := pairsTable.found
    have hdecoded := pairsTable.decoded
    simp only [pairsTable] at hnamed hdecoded
    simp only [translateFrom,translateTableExpr,translateAliasedTable,hnamed,hfound,hdecoded,crossJoin]
    rfl
  obtain ⟨c,hopen⟩ := hashAgg_opens plainPlanLib [] [⟨.count,some 0⟩] emptyScan_runs rfl
  refine ⟨hashAggNode plainPlanLib emptyScan [] [⟨.count,some 0⟩],_,?_,hopen,agg_not_ends c 0⟩
  simp only [translate,countNumbers,hfrom]
  rfl

end Plomvix.Planner
