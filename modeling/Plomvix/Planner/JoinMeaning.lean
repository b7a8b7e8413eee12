import Plomvix.Planner.SingleTable
import Plomvix.Engine.Decimal

/-! What the joins yield: for each row of the left child, its combinations with the rows of the
right one that satisfy the condition, in the order of the two. The hash join looks only among the
rows with the same key. -/
namespace Plomvix.Planner
open Lib Engine Plomvix.Lib.Comp Plomvix.Lib.Cursor

/-- Closed after all its rows, it can be opened again and has the same ones. -/
def Operator.Reopens (op : Operator) (rows : List Row) : Prop :=
  ∃ P : op.State → Prop, P op.init ∧ ∀ s, P s →
    ∃ s₁ s₂, (op.openNode s).Returns (.ok (),s₁) ∧ Streams op.next s₁ rows s₂ ∧
      (op.close s₂).1 = .ok () ∧ P (op.close s₂).2

lemma Operator.Runs.drain {op : Operator} {rows : List Row} (h : op.Runs rows) :
    op.drain.Returns (.ok rows) := by
  obtain ⟨s,s',hopen,hs⟩ := h
  exact returns_bind.mpr ⟨_,hopen,returns_bind.mpr ⟨_,collect_returns hs,returns_pure.mpr rfl⟩⟩

lemma Operator.Reopens.runs {op : Operator} {rows : List Row} (h : op.Reopens rows) : op.Runs rows := by
  obtain ⟨P,hinit,hP⟩ := h
  obtain ⟨s,s',hopen,hs,-⟩ := hP _ hinit
  exact ⟨s,s',hopen,hs⟩

lemma scan_reopens {heap : TableHeap} {decoder : RowDecoder} {schema : Schema} {tx : TxContext}
    {iter : HeapScanIterator} {rows : List Row}
    (hscan : heap.scan tx = .ok iter) (hclose : iter.close = .ok ())
    (hrows : Decodes decoder schema iter.tuples rows) :
    (seqScanNode heap decoder schema tx).Reopens rows := by
  refine ⟨fun _ => True,trivial,fun s _ =>
    ⟨some iter,some ⟨[],iter.close⟩,?_,streams_scan hrows,hclose,trivial⟩⟩
  simp only [seqScanNode,seqScanOpen,hscan]
  exact returns_pure.mpr rfl

section Reference
variable (sat : Row → Bool) (isLeftJoin : Bool) (rightSchema : Schema)

/-- What is still to come for the datums `l` of a left row: the rows made of `l` and one of the
`rest` that satisfy the condition; in a left join, if there is none and was none before, `l`
followed by a NULL for each column on the right. -/
def pending (l : List Datum) (matched : Bool) (rest : List Row) : List Row :=
  let found := (rest.map fun r => (⟨l++r.datums,0⟩ : Row)).filter sat
  if isLeftJoin && !matched && found.isEmpty then
    [⟨l++rightSchema.columns.map fun col => ⟨col.typ,.nil⟩,0⟩] else found

def joinReference (leftRows rightRows : List Row) : List Row :=
  leftRows.flatMap fun l => pending sat isLeftJoin rightSchema l.datums false rightRows

variable {sat isLeftJoin rightSchema} {l : List Datum} {matched : Bool} {r : Row} {rest : List Row}

lemma pending_nil : pending sat isLeftJoin rightSchema l matched [] = if isLeftJoin && !matched then
    [nullPadRight l rightSchema] else [] := by
  simp [pending,nullPadRight]

lemma pending_pos (h : sat (combineRows l r.datums) = true) :
    pending sat isLeftJoin rightSchema l matched (r::rest) =
      combineRows l r.datums::pending sat isLeftJoin rightSchema l true rest := by
  rw [combineRows] at h ⊢
  simp [pending,h]

lemma pending_neg (h : sat (combineRows l r.datums) = false) :
    pending sat isLeftJoin rightSchema l matched (r::rest) =
      pending sat isLeftJoin rightSchema l matched rest := by
  rw [combineRows] at h
  simp [pending,h]

lemma pending_filter {p : Row → Bool} (h : ∀ r ∈ rest, sat (combineRows l r.datums) = true → p r = true) :
    pending sat isLeftJoin rightSchema l matched (rest.filter p) =
      pending sat isLeftJoin rightSchema l matched rest := by
  have hfound : ((rest.filter p).map fun r => (⟨l++r.datums,0⟩ : Row)).filter sat =
      (rest.map fun r => (⟨l++r.datums,0⟩ : Row)).filter sat := by
    rw [List.filter_map,List.filter_map,List.filter_filter]
    refine congrArg _ (List.filter_congr fun r hr => ?_)
    cases hsat : sat ⟨l++r.datums,0⟩ with
    | true => simp [hsat,h r hr hsat]
    | false => simp [hsat]
  rw [pending,pending,hfound]

end Reference

def satisfies (lib : GoLib) (cond : Option BoundExpr) (row : Row) : Bool :=
  passes (matchesCond lib cond row)

section NestedLoop
variable {lib : GoLib} {left right : Operator} {cond : Option BoundExpr} {isLeftJoin : Bool}
  {leftRows rightRows : List Row}

lemma streams_goOn {σ : Type} {body : σ → Comp (Round σ (Answer Err Row × σ))} {s s' t : σ}
    {rows : List Row}
    (h : (body s).Returns (.goOn s')) (hs : Streams (loop body) s' rows t) :
    Streams (loop body) s rows t :=
  hs.of_next fun _ hr => loop_goOn h hr

variable {l : List Datum} (matched : Bool) {ls ls' : left.State} {rs re : right.State}

section Rounds
variable (lib cond isLeftJoin ls) {r : Row}

lemma nestedLoop_row {b : Bool} (hl : l≠[]) (hnext : (right.next rs).Returns (.row r,re))
    (hcond : matchesCond lib cond (combineRows l r.datums) = .ok b) :
    (nestedLoopBody lib left right cond isLeftJoin ⟨ls,rs,l,matched⟩).Returns
      (if b then .done (.row (combineRows l r.datums),⟨ls,re,l,true⟩) else .goOn ⟨ls,re,l,matched⟩) := by
  rw [nestedLoopBody,if_neg hl]
  refine returns_bind.mpr ⟨_,hnext,?_⟩
  simp only [hcond]
  cases b <;> exact returns_pure.mpr rfl

variable {r₁ : right.State} (hl : l≠[]) (heof : (right.next rs).Returns (.eof,re))
  (hclose : (right.close re).1 = .ok ())
  (hopen : (right.openNode (right.close re).2).Returns (.ok (),r₁))
include hl heof hclose hopen

lemma nestedLoop_last (hnext : (left.next ls).Returns (.eof,ls')) :
    (nestedLoopBody lib left right cond isLeftJoin ⟨ls,rs,l,matched⟩).Returns
    (.done (if isLeftJoin && !matched then .row (nullPadRight l right.schema) else
      .eof,⟨ls',r₁,[],matched⟩)) := by
  rw [nestedLoopBody,if_neg hl]
  refine returns_bind.mpr ⟨_,heof,?_⟩
  simp only [nestedLoopAdvance,hclose,ite_self]
  exact returns_bind.mpr ⟨_,hopen,returns_bind.mpr ⟨_,hnext,returns_pure.mpr rfl⟩⟩

lemma nestedLoop_next (hnext : (left.next ls).Returns (.row r,ls')) :
    (nestedLoopBody lib left right cond isLeftJoin ⟨ls,rs,l,matched⟩).Returns
    (if isLeftJoin && !matched then .done (.row (nullPadRight l right.schema),
      ⟨ls',r₁,r.datums,false⟩) else .goOn ⟨ls',r₁,r.datums,false⟩) := by
  rw [nestedLoopBody,if_neg hl]
  refine returns_bind.mpr ⟨_,heof,?_⟩
  simp only [nestedLoopAdvance,hclose,ite_self]
  refine returns_bind.mpr ⟨_,hopen,returns_bind.mpr ⟨_,hnext,?_⟩⟩
  simp only
  split_ifs <;> exact returns_pure.mpr rfl

end Rounds

variable (isLeftJoin)

lemma nestedLoop_pending {rest tail : List Row} (hl : l≠[]) (hright : Streams right.next rs rest re)
    (hcond : ∀ r ∈ rest, ∃ b, matchesCond lib cond (combineRows l r.datums) = .ok b)
    (hend : ∀ matched rs, (right.next rs).Returns (.eof,re) →
      ∃ t, Streams (loop (nestedLoopBody lib left right cond isLeftJoin)) ⟨ls,rs,l,matched⟩
      ((if isLeftJoin && !matched then [nullPadRight l right.schema] else [])++tail) t) :
    ∃ t, Streams (loop (nestedLoopBody lib left right cond isLeftJoin)) ⟨ls,rs,l,matched⟩
      (pending (satisfies lib cond) isLeftJoin right.schema l matched rest++tail) t := by
  obtain ⟨rs',hy,heof⟩ := hright
  induction hy generalizing matched with
  | nil =>
    rw [pending_nil]
    exact hend matched _ heof
  | @cons rs rs₁ rs' r rest hr _ ih =>
    obtain ⟨b,hb⟩ := hcond r (List.mem_cons_self ..)
    have hround := nestedLoop_row lib cond isLeftJoin matched ls hl hr hb
    have hrest := fun matched => ih matched (fun r hr => hcond r (List.mem_cons_of_mem _ hr)) heof
    cases b with
    | true =>
      rw [pending_pos (by simp [satisfies,hb]),List.cons_append]
      obtain ⟨t,ht⟩ := hrest true
      exact ⟨t,ht.cons (loop_done hround)⟩
    | false =>
      rw [pending_neg (by simp [satisfies,hb])]
      obtain ⟨t,ht⟩ := hrest matched
      exact ⟨t,streams_goOn hround ht⟩

variable {P : right.State → Prop}
  (hP : ∀ s, P s → ∃ s₁ s₂, (right.openNode s).Returns (.ok (),s₁) ∧
    Streams right.next s₁ rightRows s₂ ∧ (right.close s₂).1 = .ok () ∧ P (right.close s₂).2)
include hP

lemma nestedLoop_streams (hcols : ∀ l ∈ leftRows, l.datums≠[])
    (hcond : ∀ l ∈ leftRows, ∀ r ∈ rightRows, ∃ b,
      matchesCond lib cond (combineRows l.datums r.datums) = .ok b)
    (hleft : Streams left.next ls leftRows ls') (hl : l≠[]) (hclose : (right.close re).1 = .ok ())
    (hre : P (right.close re).2)
    (heof : (right.next rs).Returns (.eof,re)) :
    ∃ t, Streams (loop (nestedLoopBody lib left right cond isLeftJoin)) ⟨ls,rs,l,matched⟩
      ((if isLeftJoin && !matched then [nullPadRight l right.schema] else [])++
        joinReference (satisfies lib cond) isLeftJoin right.schema leftRows rightRows) t := by
  obtain ⟨le,hy,hend⟩ := hleft
  obtain ⟨r₁,r₂,hopen,hs,hclose',hre'⟩ := hP _ hre
  induction hy generalizing l matched rs re r₁ r₂ with
  | nil =>
    have hround := nestedLoop_last lib cond isLeftJoin matched _ hl heof hclose hopen hend
    have hdone : ∀ s : LoopState left.State right.State, s.leftRow = [] →
        Streams (loop (nestedLoopBody lib left right cond isLeftJoin)) s [] s := by
      intro s hs
      refine ⟨s,.nil,loop_done ?_⟩
      rw [nestedLoopBody,if_pos hs]
      exact returns_pure.mpr rfl
    cases hpads : isLeftJoin && !matched with
    | true =>
      rw [hpads] at hround
      exact ⟨_,(hdone _ rfl).cons (loop_done hround)⟩
    | false =>
      rw [hpads] at hround
      exact ⟨_,_,.nil,loop_done hround⟩
  | @cons ls ls₁ le r leftRows hr _ ih =>
    have hround := nestedLoop_next lib cond isLeftJoin matched _ hl heof hclose hopen hr
    have hr' := hcols r (List.mem_cons_self ..)
    obtain ⟨t,ht⟩ := nestedLoop_pending isLeftJoin false hr' hs
      (hcond r (List.mem_cons_self ..)) fun matched rs heof => by
      obtain ⟨r₁,r₂,hopen,hs,hclose'',hre''⟩ := hP _ hre'
      exact ih matched (fun l hl => hcols l (List.mem_cons_of_mem _ hl)) (fun l hl =>
        hcond l (List.mem_cons_of_mem _ hl)) hr' hclose'
        hre' heof hend r₁ r₂ hopen hs hclose'' hre''
    rw [joinReference,List.flatMap_cons]
    cases hpads : isLeftJoin && !matched with
    | true =>
      rw [hpads] at hround
      exact ⟨t,ht.cons (loop_done hround)⟩
    | false =>
      rw [hpads] at hround
      exact ⟨t,streams_goOn hround ht⟩

omit hP in
theorem nestedLoop_runs (hcols : ∀ l ∈ leftRows, l.datums≠[])
    (hcond : ∀ l ∈ leftRows, ∀ r ∈ rightRows, ∃ b,
      matchesCond lib cond (combineRows l.datums r.datums) = .ok b)
    (hleft : left.Runs leftRows) (hright : right.Reopens rightRows) :
    (nestedLoopJoinNode lib left right cond isLeftJoin).Runs
      (joinReference (satisfies lib cond) isLeftJoin right.schema leftRows rightRows) := by
  obtain ⟨ls,le,hopenLeft,hleft⟩ := hleft
  obtain ⟨P,hinit,hP⟩ := hright
  obtain ⟨rs,re,hopenRight,hs,hclose,hre⟩ := hP _ hinit
  obtain ⟨ls',hy,hend⟩ := hleft
  cases hy with
  | nil =>
    refine ⟨⟨le,rs,[],false⟩,⟨le,rs,[],false⟩,?_,_,.nil,loop_done ?_⟩
    · exact returns_bind.mpr ⟨_,hopenLeft,
        returns_bind.mpr ⟨_,hopenRight,returns_bind.mpr ⟨_,hend,returns_pure.mpr rfl⟩⟩⟩
    · exact returns_pure.mpr rfl
  | @cons _ ls₁ _ l leftRows hl hy =>
    have hl' := hcols l (List.mem_cons_self ..)
    obtain ⟨t,ht⟩ := nestedLoop_pending isLeftJoin false hl' hs
      (hcond l (List.mem_cons_self ..)) fun matched rs heof =>
      nestedLoop_streams isLeftJoin matched hP (fun l hl =>
        hcols l (List.mem_cons_of_mem _ hl)) (fun l hl => hcond l (List.mem_cons_of_mem _ hl))
        ⟨ls',hy,hend⟩ hl' hclose hre heof
    refine ⟨⟨ls₁,rs,l.datums,false⟩,t,?_,ht⟩
    exact returns_bind.mpr ⟨_,hopenLeft,
      returns_bind.mpr ⟨_,hopenRight,returns_bind.mpr ⟨_,hl,returns_pure.mpr rfl⟩⟩⟩

end NestedLoop

/-- What a join may compare: NULL, or a value that is no float. -/
inductive KeyDatum : Datum → Prop
  | null : KeyDatum ⟨.null,.nil⟩
  | int64 {i} : KeyDatum ⟨.int64,.int64 i⟩
  | uint64 {n} : KeyDatum ⟨.uint64,.uint64 n⟩
  | bool {b} : KeyDatum ⟨.bool,.bool b⟩
  | string {s} : KeyDatum ⟨.string,.string s⟩

lemma decimalInt_injective : Function.Injective decimalInt := by
  have hsign : ∀ (m : ℕ) (b : Bytes), decimal m≠45::b := fun m b h =>
    absurd (isDigit_decimal (h ▸ List.mem_cons_self .. : (45 : UInt8) ∈ decimal m)) (by decide)
  intro i j h
  have hlt : ∀ i : Int64, i < 0 ↔ i.toInt < 0 := fun i => Int64.lt_iff_toInt_lt
  simp only [decimalInt,hlt] at h
  apply Int64.toInt_inj.mp
  split_ifs at h with hi hj hj
  · have := decimal_injective (List.cons.inj h).2
    omega
  · exact absurd h.symm (hsign _ _)
  · exact absurd h (hsign _ _)
  · have := decimal_injective h
    omega

section Keys
variable (lib : PlanLib) {d d' : Datum}

lemma datumEqual_of_keys (h : KeyDatum d) (h' : KeyDatum d') :
    ∃ k k', encodeHashKey lib d = .ok k ∧ encodeHashKey lib d' = .ok k' ∧
    datumEqual lib.toGoLib d d' = .ok (decide (k≠[] ∧ k = k')) := by
  cases h <;> cases h' <;> refine ⟨_,_,rfl,rfl,?_⟩ <;> simp [datumEqual,ascii,
    decimalInt_injective.eq_iff,decimal_injective.eq_iff,UInt64.toNat_inj,beq_eq_decide]
  case bool.bool b b' => cases b <;> cases b' <;> decide

/-- The key under which a row is found. -/
def rowKey (key : ℕ) (row : Row) : Bytes := (hashKeyAt lib key row).toOption.getD []

lemma hashKeyAt_eq {key : ℕ} {row : Row} (h : ∃ d, row.datums[key]? = some d ∧ KeyDatum d) :
    hashKeyAt lib key row = .ok (rowKey lib key row) := by
  obtain ⟨d,hd,hkey⟩ := h
  obtain ⟨k,-,hk,-⟩ := datumEqual_of_keys lib hkey hkey
  simp [rowKey,hashKeyAt,hd,hk,Except.toOption]

/-- The table has the rows of the right child by their keys, each in the order in which they came. -/
lemma hashTable_built {rightKey : ℕ} {rows : List Row}
    (hkeys : ∀ r ∈ rows, ∃ d, r.datums[rightKey]? = some d ∧ KeyDatum d) (table : HashTable) :
    ∃ table', rows.foldlM (HashTable.addRow lib rightKey) table = .ok table' ∧ ∀ k, k≠[] →
      (Assoc.lookup k table').getD [] = (Assoc.lookup k table).getD []++rows.filter fun r =>
        rowKey lib rightKey r = k := by
  induction rows generalizing table with
  | nil => exact ⟨table,rfl,fun k _ => by simp⟩
  | cons r rows ih =>
    have hadd : HashTable.addRow lib rightKey table r = .ok (if rowKey lib rightKey r = [] then
      table else table.add (rowKey lib rightKey r) r) := by
      rw [HashTable.addRow,hashKeyAt_eq lib (hkeys r (List.mem_cons_self ..))]
      rfl
    obtain ⟨table',hfold,hlookup⟩ := ih (fun r hr => hkeys r (List.mem_cons_of_mem _ hr))
      (if rowKey lib rightKey r = [] then table else table.add (rowKey lib rightKey r) r)
    refine ⟨table',by rw [List.foldlM_cons,hadd]; exact hfold,fun k hk => ?_⟩
    rw [hlookup k hk]
    by_cases hr : rowKey lib rightKey r = k
    · rw [if_neg (hr ▸ hk),HashTable.add,Assoc.lookup_put,if_pos hr.symm,
        List.filter_cons_of_pos (by simpa using hr),hr]
      simp
    · rw [List.filter_cons_of_neg (by simpa using hr)]
      split_ifs
      · rfl
      · rw [HashTable.add,Assoc.lookup_put,if_neg (Ne.symm hr)]

end Keys

section Hash
variable {lib : PlanLib} {left right : Operator} {leftKey rightKey : ℕ} {isLeftJoin : Bool}
  {residual : Option BoundExpr}
  (s : HashState left.State right.State) {leftRows : List Row}

lemma hash_pending {rest tail : List Row} (hdrop : s.activeMatches.drop s.matchIdx = rest)
    (hprobe : s.activeProbe≠[])
    (hcond : ∀ r ∈ rest, ∃ b,
      matchesCond lib.toGoLib residual (combineRows s.activeProbe r.datums) = .ok b)
    (hend : ∀ s' : HashState left.State right.State, s'.left = s.left → s'.hashTable = s.hashTable →
      s'.activeMatches[s'.matchIdx]? = none →
      (isLeftJoin && decide (s'.activeProbe≠[]) && !s'.matchedAny) = false →
        ∃ t, Streams (loop (hashBody lib left right leftKey isLeftJoin residual)) s' tail t) :
    ∃ t, Streams (loop (hashBody lib left right leftKey isLeftJoin residual)) s
      (pending (satisfies lib.toGoLib residual) isLeftJoin right.schema s.activeProbe s.matchedAny
        rest++tail) t := by
  induction rest generalizing s with
  | nil =>
    have hnone : s.activeMatches[s.matchIdx]? = none :=
      List.getElem?_eq_none (List.drop_eq_nil_iff.mp hdrop)
    rw [pending_nil]
    cases hpads : isLeftJoin && !s.matchedAny with
    | true =>
      obtain ⟨t,ht⟩ := hend { s with activeProbe := [] } rfl rfl hnone (by simp)
      refine ⟨t,ht.cons (loop_done ?_)⟩
      simp only [Bool.and_eq_true,Bool.not_eq_true'] at hpads
      simp [hashBody,hnone,hpads,hprobe]
    | false => exact hend s rfl rfl hnone (by simpa [hprobe] using hpads)
  | cons r rest ih =>
    have hget : s.activeMatches[s.matchIdx]? = some r := by
      rw [← List.head?_drop,hdrop]
      rfl
    have hdrop' : s.activeMatches.drop (s.matchIdx+1) = rest := by
      rw [← List.tail_drop,hdrop,List.tail_cons]
    obtain ⟨b,hb⟩ := hcond r (List.mem_cons_self ..)
    have hrest := fun r hr => hcond r (List.mem_cons_of_mem _ hr)
    cases b with
    | true =>
      rw [pending_pos (by simp [satisfies,hb]),List.cons_append]
      obtain ⟨t,ht⟩ := ih { s with matchIdx := s.matchIdx+1, matchedAny := true } hdrop' hprobe hrest hend
      refine ⟨t,ht.cons (loop_done ?_)⟩
      simp [hashBody,hget,hb]
    | false =>
      rw [pending_neg (by simp [satisfies,hb])]
      obtain ⟨t,ht⟩ := ih { s with matchIdx := s.matchIdx+1 } hdrop' hprobe hrest hend
      refine ⟨t,streams_goOn ?_ ht⟩
      simp [hashBody,hget,hb]

variable (isLeftJoin)

lemma hash_streams {rightRows : List Row} (hlookup : ∀ k, k≠[] →
      (Assoc.lookup k s.hashTable).getD [] = rightRows.filter fun r => rowKey lib rightKey r = k)
    (hkeys : ∀ l ∈ leftRows, ∃ d, l.datums[leftKey]? = some d ∧ KeyDatum d)
    (hcond : ∀ l ∈ leftRows, ∀ r ∈ rightRows, ∃ b,
      matchesCond lib.toGoLib residual (combineRows l.datums r.datums) = .ok b)
    (hsat : ∀ l ∈ leftRows, ∀ r ∈ rightRows,
      satisfies lib.toGoLib residual (combineRows l.datums r.datums) = true →
      rowKey lib leftKey l≠[] ∧ rowKey lib rightKey r = rowKey lib leftKey l)
    {ls : left.State} (hleft : Streams left.next s.left leftRows ls)
    (hnone : s.activeMatches[s.matchIdx]? = none)
    (hpads : (isLeftJoin && decide (s.activeProbe≠[]) && !s.matchedAny) = false) :
    ∃ t, Streams (loop (hashBody lib left right leftKey isLeftJoin residual)) s
      (joinReference (satisfies lib.toGoLib residual) isLeftJoin right.schema leftRows rightRows) t := by
  induction leftRows generalizing s with
  | nil =>
    obtain ⟨ls',hy,hend⟩ := hleft
    cases hy
    refine ⟨{ s with left := ls },s,.nil,loop_done ?_⟩
    simp only [hashBody,hnone,hpads]
    exact returns_bind.mpr ⟨_,hend,returns_pure.mpr rfl⟩
  | cons l leftRows ih =>
    obtain ⟨ls',hy,hend⟩ := hleft
    cases hy with
    | @cons _ ls₁ _ _ _ hl hy =>
      have hself := List.mem_cons_self (a := l) (l := leftRows)
      obtain ⟨d,hd,-⟩ := hkeys l hself
      have hprobe : l.datums≠[] := fun h => by simp [h] at hd
      obtain ⟨found,hfound,hround⟩ : ∃ found, found = (rightRows.filter fun r =>
        rowKey lib leftKey l≠[] ∧ rowKey lib rightKey r = rowKey lib leftKey l) ∧
          (hashBody lib left right leftKey isLeftJoin residual s).Returns
            (.goOn ⟨ls₁,s.right,s.hashTable,s.rightClosed,l.datums,found,0,false⟩) := by
        refine ⟨_,rfl,?_⟩
        simp only [hashBody,hnone,hpads]
        refine returns_bind.mpr ⟨_,hl,?_⟩
        simp only [hashKeyAt_eq lib (hkeys l hself)]
        by_cases hk : rowKey lib leftKey l = []
        · rw [if_pos hk]
          exact returns_pure.mpr (by simp [hk])
        · rw [if_neg hk]
          exact returns_pure.mpr (by simp [hk,hlookup _ hk])
      have hpending : pending (satisfies lib.toGoLib residual) isLeftJoin right.schema l.datums
        false found =
          pending (satisfies lib.toGoLib residual) isLeftJoin right.schema l.datums false rightRows :=
        hfound ▸ pending_filter fun r hr h => by simpa using hsat l hself r hr h
      have hfoundCond : ∀ r ∈ found, ∃ b,
        matchesCond lib.toGoLib residual (combineRows l.datums r.datums) = .ok b := fun r hr =>
        hcond l hself r (List.mem_of_mem_filter (hfound ▸ hr))
      rw [joinReference,List.flatMap_cons,← hpending]
      obtain ⟨t,ht⟩ := hash_pending ⟨ls₁,s.right,s.hashTable,s.rightClosed,l.datums,found,0,
        false⟩ rfl hprobe hfoundCond
        fun s' hs' htable hnone' hpads' =>
          ih s' (htable ▸ hlookup) (fun l hl => hkeys l (List.mem_cons_of_mem _ hl))
          (fun l hl => hcond l (List.mem_cons_of_mem _ hl)) (fun l hl =>
            hsat l (List.mem_cons_of_mem _ hl)) (hs' ▸ ⟨ls',hy,hend⟩) hnone' hpads'
      exact ⟨t,streams_goOn hround ht⟩

theorem hash_runs {rightRows : List Row}
    (hkeys : ∀ l ∈ leftRows, ∃ d, l.datums[leftKey]? = some d ∧ KeyDatum d)
    (hkeys' : ∀ r ∈ rightRows, ∃ d, r.datums[rightKey]? = some d ∧ KeyDatum d)
    (hcond : ∀ l ∈ leftRows, ∀ r ∈ rightRows, ∃ b,
      matchesCond lib.toGoLib residual (combineRows l.datums r.datums) = .ok b)
    (hsat : ∀ l ∈ leftRows, ∀ r ∈ rightRows,
      satisfies lib.toGoLib residual (combineRows l.datums r.datums) = true →
      rowKey lib leftKey l≠[] ∧ rowKey lib rightKey r = rowKey lib leftKey l)
    (hleft : left.Runs leftRows) (hright : right.Reopens rightRows) :
    (hashJoinNode lib left right leftKey rightKey isLeftJoin residual).Runs
      (joinReference (satisfies lib.toGoLib residual) isLeftJoin right.schema leftRows rightRows) := by
  obtain ⟨ls,le,hopenLeft,hleft⟩ := hleft
  obtain ⟨P,hinit,hP⟩ := hright
  obtain ⟨rs,re,hopenRight,hs,-⟩ := hP _ hinit
  obtain ⟨table,hfold,hlookup⟩ := hashTable_built lib hkeys' []
  obtain ⟨t,ht⟩ := hash_streams isLeftJoin ⟨ls,(right.close re).2,table,true,[],[],0,
    false⟩ hlookup hkeys hcond hsat hleft rfl (by simp)
  refine ⟨_,t,?_,ht⟩
  exact returns_bind.mpr ⟨_,hopenLeft,
    returns_bind.mpr ⟨_,hopenRight,returns_bind.mpr ⟨_,fold_returns hs hfold,returns_pure.mpr rfl⟩⟩⟩

end Hash

/-- The two keys are compared, of rows that begin with the `n` columns of the left child. -/
inductive KeyEquality (n leftKey rightKey : ℕ) : BoundExpr → Prop
  | leftRight {t t'} : KeyEquality n leftKey rightKey
      (.cmpExpr (.colRef leftKey t) (.colRef (n+rightKey) t') .eq)
  | rightLeft {t t'} : KeyEquality n leftKey rightKey
      (.cmpExpr (.colRef (n+rightKey) t') (.colRef leftKey t) .eq)

section Condition
variable {lib : PlanLib} {n leftKey rightKey : ℕ} {keyEq residual : BoundExpr} {l r : Row} {d d' : Datum}

lemma KeyEquality.eval (hkeyEq : KeyEquality n leftKey rightKey keyEq) (hn : l.datums.length = n)
    (hd : l.datums[leftKey]? = some d)
    (hkey : KeyDatum d) (hd' : r.datums[rightKey]? = some d') (hkey' : KeyDatum d') :
    keyEq.eval lib.toGoLib (combineRows l.datums r.datums) =
      .ok (boolDatum (decide (rowKey lib leftKey l≠[] ∧
        rowKey lib rightKey r = rowKey lib leftKey l))) := by
  have hleft : (combineRows l.datums r.datums).datums[leftKey]? = some d := by
    obtain ⟨hlt,-⟩ := List.getElem?_eq_some_iff.mp hd
    rw [combineRows,List.getElem?_append_left hlt,hd]
  have hright : (combineRows l.datums r.datums).datums[n+rightKey]? = some d' := by
    rw [combineRows,List.getElem?_append_right (by omega),hn,Nat.add_sub_cancel_left,hd']
  have hrow : ∀ {key : ℕ} {row : Row} {d : Datum} {k}, row.datums[key]? = some d →
    encodeHashKey lib d = .ok k → rowKey lib key row = k := by
    intro key row d k hd hk
    simp [rowKey,hashKeyAt,hd,hk,Except.toOption]
  cases hkeyEq with
  | leftRight =>
    obtain ⟨k,k',hk,hk',heq⟩ := datumEqual_of_keys lib hkey hkey'
    simp only [BoundExpr.eval,hleft,hright,bind,Except.bind,heq,hrow hd hk,hrow hd' hk']
    simp [pure,Except.pure,eq_comm]
  | rightLeft =>
    obtain ⟨k',k,hk',hk,heq⟩ := datumEqual_of_keys lib hkey' hkey
    have hiff : (k'≠[] ∧ k' = k) ↔ k≠[] ∧ k' = k := by constructor <;> rintro ⟨h,rfl⟩ <;> exact ⟨h,rfl⟩
    simp only [BoundExpr.eval,hleft,hright,bind,Except.bind,heq,hrow hd hk,hrow hd' hk',hiff]
    rfl

lemma matchesCond_of_keys (hkeyEq : KeyEquality n leftKey rightKey keyEq) (hn : l.datums.length = n)
    (hd : ∃ d, l.datums[leftKey]? = some d ∧ KeyDatum d)
    (hd' : ∃ d, r.datums[rightKey]? = some d ∧ KeyDatum d) {typ : Typ} {b : Bool}
    (hresidual : residual.eval lib.toGoLib (combineRows l.datums r.datums) = .ok ⟨typ,.bool b⟩) :
    matchesCond lib.toGoLib (some (.boolExpr keyEq residual true)) (combineRows l.datums r.datums) =
      .ok (decide (rowKey lib leftKey l≠[] ∧ rowKey lib rightKey r = rowKey lib leftKey l) && b) := by
  obtain ⟨d,hd,hkey⟩ := hd
  obtain ⟨d',hd',hkey'⟩ := hd'
  simp only [matchesCond,holds,BoundExpr.eval,hkeyEq.eval hn hd hkey hd' hkey',boolDatum,bind,
    Except.bind,hresidual]
  cases decide (rowKey lib leftKey l≠[] ∧ rowKey lib rightKey r = rowKey lib leftKey l) <;> cases b <;> rfl

end Condition

/-- With the equality of the keys in the condition, both joins are the same. -/
theorem joins_agree (lib : PlanLib) (left right : Operator) (leftRows rightRows : List Row)
    (hleft : left.Runs leftRows) (hright : right.Reopens rightRows)
    (n leftKey rightKey : ℕ) (hn : ∀ l ∈ leftRows, l.datums.length = n)
    (hkeys : ∀ l ∈ leftRows, ∃ d, l.datums[leftKey]? = some d ∧ KeyDatum d)
    (hkeys' : ∀ r ∈ rightRows, ∃ d, r.datums[rightKey]? = some d ∧ KeyDatum d)
    (keyEq residual : BoundExpr) (hkeyEq : KeyEquality n leftKey rightKey keyEq)
    (hresidual : ∀ l ∈ leftRows, ∀ r ∈ rightRows, ∃ typ b,
      residual.eval lib.toGoLib (combineRows l.datums r.datums) = .ok ⟨typ,.bool b⟩)
    (isLeftJoin : Bool) :
    let cond := some (BoundExpr.boolExpr keyEq residual true)
    let rows := joinReference (satisfies lib.toGoLib cond) isLeftJoin right.schema leftRows rightRows
    (hashJoinNode lib left right leftKey rightKey isLeftJoin cond).drain.Returns (.ok rows) ∧
      (nestedLoopJoinNode lib.toGoLib left right cond isLeftJoin).drain.Returns (.ok rows) := by
  intro cond rows
  have hcond : ∀ l ∈ leftRows, ∀ r ∈ rightRows, ∃ b,
    matchesCond lib.toGoLib cond (combineRows l.datums r.datums) =
      .ok (decide (rowKey lib leftKey l≠[] ∧ rowKey lib rightKey r = rowKey lib leftKey l) && b) := by
    intro l hl r hr
    obtain ⟨typ,b,hb⟩ := hresidual l hl r hr
    exact ⟨b,matchesCond_of_keys hkeyEq (hn l hl) (hkeys l hl) (hkeys' r hr) hb⟩
  have hok : ∀ l ∈ leftRows, ∀ r ∈ rightRows, ∃ b,
    matchesCond lib.toGoLib cond (combineRows l.datums r.datums) = .ok b := fun l hl r hr =>
    ⟨_,(hcond l hl r hr).choose_spec⟩
  refine ⟨Operator.Runs.drain (hash_runs isLeftJoin hkeys hkeys' hok (fun l hl r hr h => ?_) hleft hright),
    Operator.Runs.drain (nestedLoop_runs isLeftJoin (fun l hl => ?_) hok hleft hright)⟩
  · obtain ⟨b,hb⟩ := hcond l hl r hr
    by_contra hkey
    rw [satisfies,hb,decide_eq_false hkey] at h
    cases h
  · obtain ⟨d,hd,-⟩ := hkeys l hl
    intro h
    simp [h] at hd

def namesScan (colName : Bytes) (names : List Bytes) : Operator :=
  seqScanNode ⟨fun _ => .ok ⟨names.map fun name => .ok (name,0),.ok ()⟩⟩ (fun name _ =>
    .ok [⟨.string,.string name⟩])
    ⟨[⟨colName,.string,false,none⟩]⟩ ⟨0,0⟩

def nameRow (name : Bytes) : Row := ⟨[⟨.string,.string name⟩],0⟩

lemma namesScan_reopens (colName : Bytes) (names : List Bytes) :
    (namesScan colName names).Reopens (names.map nameRow) := by
  refine scan_reopens rfl rfl ?_
  induction names with
  | nil => exact .nil
  | cons name names ih => exact .cons ⟨name,rfl,rfl⟩ ih

lemma nameRow_key {names : List Bytes} {row : Row} (h : row ∈ names.map nameRow) :
    ∃ d, row.datums[0]? = some d ∧ KeyDatum d := by
  obtain ⟨name,-,rfl⟩ := List.mem_map.mp h
  exact ⟨_,rfl,.string⟩

/-- `'a'` has no partner on the right and comes with a NULL, `'b'` with its own. -/
theorem joins_agree_names :
    let left := namesScan (ascii "name") [ascii "a",ascii "b"]
    let right := namesScan (ascii "name") [ascii "b",ascii "c"]
    let cond := some (BoundExpr.boolExpr (.cmpExpr (.colRef 0 .string) (.colRef 1 .string) .eq)
      (.literalExpr (boolDatum true)) true)
    let rows : List Row := [⟨[⟨.string,.string (ascii "a")⟩,⟨.string,.nil⟩],0⟩,
      ⟨[⟨.string,.string (ascii "b")⟩,⟨.string,.string (ascii "b")⟩],0⟩]
    (hashJoinNode plainPlanLib left right 0 0 true cond).drain.Returns (.ok rows) ∧
      (nestedLoopJoinNode plainLib left right cond true).drain.Returns (.ok rows) := by
  intro left right cond rows
  have h := joins_agree plainPlanLib left right _ _ (namesScan_reopens _ _).runs
    (namesScan_reopens _ _) 1 0 0
    (fun l hl => by obtain ⟨name,-,rfl⟩ := List.mem_map.mp hl; rfl) (fun l hl => nameRow_key hl)
    (fun r hr => nameRow_key hr) (.cmpExpr (.colRef 0 .string) (.colRef 1 .string) .eq)
    (.literalExpr (boolDatum true)) .leftRight (fun _ _ _ _ => ⟨.bool,true,rfl⟩) true
  have hrows : joinReference (satisfies plainLib cond) true right.schema
    ([ascii "a",ascii "b"].map nameRow)
      ([ascii "b",ascii "c"].map nameRow) = rows := by decide +kernel
  rw [← hrows]
  exact h

end Plomvix.Planner
