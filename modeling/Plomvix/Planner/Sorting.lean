import Plomvix.Lib.Lexicographic
import Plomvix.Planner.Pipeline
import Plomvix.Engine.Sql

/-! The rows that a sort node puts out. It asks one comparison after another of a stable sort, and
this comparison does not order all values: it takes two NULLs for different, fails on a NULL that a
join has put in, and does not tell apart truth values or bytes. -/
namespace Plomvix.Planner
open Lib Engine

def valueOrd : Value → ℕ ×ₗ ℤ ×ₗ Bytes
  | .nil => toLex (0,toLex (0,[]))
  | .int64 i => toLex (1,toLex (i.toInt,[]))
  | .uint64 n => toLex (1,toLex (n.toNat,[]))
  | .bool b => toLex (1,toLex (if b then 1 else 0,[]))
  | .string s | .bytes s => toLex (1,toLex (0,s))
  | .float64 _ => toLex (1,toLex (0,[]))

def keyOrd (key : SortKey) (row : Row) : ℕ ×ₗ ℤ ×ₗ Bytes :=
  valueOrd (((row.datums[key.colIdx]?).map (·.value)).getD .nil)

/-- The order that ORDER BY asks for. -/
abbrev KeysLe (keys : List SortKey) : Row → Row → Prop := lexLe keyOrd (·.desc) keys

inductive OfType : Typ → Value → Prop
  | int64 (i : Int64) : OfType .int64 (.int64 i)
  | uint64 (n : UInt64) : OfType .uint64 (.uint64 n)
  | bool (b : Bool) : OfType .bool (.bool b)
  | string (s : Bytes) : OfType .string (.string s)
  | bytes (s : Bytes) : OfType .bytes (.bytes s)

/-- A value of the column's type, or a NULL as a scan returns it, or one that a join has put in. -/
inductive InColumn (typ : Typ) : Datum → Prop
  | scanned : InColumn typ ⟨.null,.nil⟩
  | padded : InColumn typ ⟨typ,.nil⟩
  | value {v : Value} (h : OfType typ v) : InColumn typ ⟨typ,v⟩

def keyTypes : List Typ := [.int64,.uint64,.bool,.string,.bytes]

/-- Each key names a column whose values are of one of these types. -/
def Sortable (keys : List SortKey) (rows : List Row) : Prop :=
  ∀ key ∈ keys, ∃ typ ∈ keyTypes, ∀ row ∈ rows, ∃ d, row.datums[key.colIdx]? = some d ∧ InColumn typ d

/-- `datumLess` compares the values of the type. -/
def inOrder (typ : Typ) : Bool := typ = .int64 || typ = .uint64 || typ = .string

/-- What is made of two values: they count as equal and the next key decides, one is below the
other, neither is, or each is below the other or they cannot be compared. -/
inductive Told
  | same | lower | higher | undecided | conflict
  deriving DecidableEq

def told (desc : Bool) (a b : Datum) : Told :=
  if a.value = .nil ∧ b.value = .nil then
    if desc ∨ a.typ = b.typ ∧ a.typ≠.null ∨ inOrder a.typ ∨ inOrder b.typ then .conflict else .undecided
  -- a NULL of a join has the type of its column
  else if a.typ = b.typ ∧ (a.value = .nil ∨ b.value = .nil) then .conflict
  else if a.value = b.value then .same
  else if a.typ = b.typ ∧ inOrder a.typ = false then if desc then .conflict else .undecided
  else if desc then if valueOrd b.value < valueOrd a.value then .lower else .higher
  else if valueOrd a.value < valueOrd b.value then .lower else .higher

/-- What is made of two rows, if it is an order of them. -/
def tell : List SortKey → Row → Row → Option Ordering
  | [],_,_ => some .eq
  | key::keys,u,v =>
    match u.datums[key.colIdx]?,v.datums[key.colIdx]? with
    | some a,some b =>
      match told key.desc a b with
      | .same => tell keys u v
      | .lower => some .lt
      | .higher => some .gt
      | .undecided => some .eq
      | .conflict => none
    | _,_ => none

section Comparison
variable {lib : GoLib} {desc : Bool} {typ : Typ} {a b : Datum}

/-- One key of the comparison; none if the next key decides. -/
def keyStep (lib : GoLib) (desc : Bool) (a b : Datum) : Except Err (Option Bool) := do
  if ← datumEqual lib a b then return none
  else if decide (a.value = .nil)≠decide (b.value = .nil) then
    return some (if desc then decide (b.value = .nil) else decide (a.value = .nil))
  else
    let less ← datumLess lib a b
    return some (if desc then !less else less)

lemma sortLess_cons {key : SortKey} {keys : List SortKey} {u v : Row} (ha : u.datums[key.colIdx]? = some a)
    (hb : v.datums[key.colIdx]? = some b) :
    sortLess lib (key::keys) u v = keyStep lib key.desc a b >>= fun r => match r with
      | none => sortLess lib keys u v
      | some less => .ok less := by
  simp only [sortLess,ha,hb,keyStep]
  cases datumEqual lib a b with
  | error e => rfl
  | ok same =>
    cases same with
    | true => rfl
    | false =>
      simp only [bind,Except.bind,pure,Except.pure]
      split_ifs
      all_goals first | rfl | skip
      all_goals cases datumLess lib a b <;> simp_all

def Told.Answers (lib : GoLib) (desc : Bool) (a b : Datum) : Told → Prop
  | .same => keyStep lib desc a b = .ok none ∧ keyStep lib desc b a = .ok none
  | .lower => keyStep lib desc a b = .ok (some true) ∧ keyStep lib desc b a = .ok (some false)
  | .higher => keyStep lib desc a b = .ok (some false) ∧ keyStep lib desc b a = .ok (some true)
  | .undecided => keyStep lib desc a b = .ok (some false) ∧ keyStep lib desc b a = .ok (some false)
  | .conflict => keyStep lib desc a b = .error .panic ∨ keyStep lib desc b a = .error .panic ∨
      keyStep lib desc a b = .ok (some true) ∧ keyStep lib desc b a = .ok (some true)

section Values
variable {v w : Value}

lemma OfType.equal (hv : OfType typ v) (hw : OfType typ w) :
    datumEqual lib ⟨typ,v⟩ ⟨typ,w⟩ = .ok (decide (v = w)) := by
  cases hv <;> cases hw <;> simp [datumEqual,Bool.beq_eq_decide_eq]

lemma OfType.less (hv : OfType typ v) (hw : OfType typ w) :
    datumLess lib ⟨typ,v⟩ ⟨typ,w⟩ = .ok (inOrder typ && decide (valueOrd v < valueOrd w)) := by
  cases hv <;> cases hw <;>
    simp [datumLess,inOrder,valueOrd,Prod.Lex.toLex_lt_toLex,Int64.lt_iff_toInt_lt,UInt64.lt_iff_toNat_lt]

lemma OfType.inj (hv : OfType typ v) (hw : OfType typ w) (h : valueOrd v = valueOrd w) : v = w := by
  cases hv <;> cases hw <;> simp [valueOrd] at h ⊢
  · exact Int64.toInt_inj.mp h
  · exact UInt64.toNat_inj.mp h
  · grind
  · exact h
  · exact h

lemma OfType.not_nil (hv : OfType typ v) : v≠.nil := by cases hv <;> simp

lemma OfType.not_null (hv : OfType typ v) : typ≠.null := by cases hv <;> simp

lemma OfType.nil_lt (hv : OfType typ v) : valueOrd .nil < valueOrd v := by
  cases hv <;> simp [valueOrd,Prod.Lex.toLex_lt_toLex]

lemma keyStep_values (lib : GoLib) (desc : Bool) (hv : OfType typ v) (hw : OfType typ w)
    (hvw : v≠w) : keyStep lib desc ⟨typ,v⟩ ⟨typ,w⟩ =
    .ok (some (desc ^^ (inOrder typ && decide (valueOrd v < valueOrd w)))) := by
  simp only [keyStep,hv.equal hw,hv.less hw,hv.not_nil,hw.not_nil,hvw]
  cases desc <;> simp [bind,Except.bind,pure,Except.pure]

lemma told_values (hv : OfType typ v) (hw : OfType typ w) :
    (told desc ⟨typ,v⟩ ⟨typ,w⟩).Answers lib desc ⟨typ,v⟩ ⟨typ,w⟩ := by
  by_cases hvw : v = w
  · subst hvw
    simp [told,hv.not_nil,Told.Answers,keyStep,hv.equal hv,bind,Except.bind,pure,Except.pure]
  · have hto := keyStep_values lib desc hv hw hvw
    have hback := keyStep_values lib desc hw hv (Ne.symm hvw)
    cases htyp : inOrder typ with
    | false => cases desc <;> simp [told,hv.not_nil,hw.not_nil,hvw,htyp,Told.Answers,hto,hback]
    | true =>
      obtain h | h | h := lt_trichotomy (valueOrd v) (valueOrd w)
      · cases desc <;> simp [told,hv.not_nil,hw.not_nil,hvw,htyp,h,not_lt_of_gt h,Told.Answers,hto,hback]
      · exact absurd (hv.inj hw h) hvw
      · cases desc <;> simp [told,hv.not_nil,hw.not_nil,hvw,htyp,h,not_lt_of_gt h,Told.Answers,hto,hback]

end Values

lemma datumEqual_padded {v : Value} (htyp : typ ∈ keyTypes) :
    datumEqual lib ⟨typ,.nil⟩ ⟨typ,v⟩ = .error .panic := by
  fin_cases htyp <;> simp [datumEqual]

lemma told_answers (lib : GoLib) (desc : Bool) (htyp : typ ∈ keyTypes) (ha : InColumn typ a)
    (hb : InColumn typ b) : (told desc a b).Answers lib desc a b := by
  cases ha with
  | scanned =>
    cases hb with
    | scanned =>
      cases desc <;> simp [told,Told.Answers,keyStep,datumEqual,datumLess,inOrder,bind,Except.bind,
        pure,Except.pure]
    | padded =>
      fin_cases htyp <;> cases desc <;>
        simp [told,Told.Answers,keyStep,datumEqual,datumLess,inOrder,bind,Except.bind,pure,Except.pure]
    | value h =>
      cases desc <;> simp [told,Told.Answers,keyStep,datumEqual,h.not_nil,h.not_nil.symm,h.not_null,
        h.not_null.symm,h.nil_lt,
        not_lt_of_gt h.nil_lt,bind,Except.bind,pure,Except.pure]
  | padded =>
    cases hb with
    | scanned =>
      fin_cases htyp <;> cases desc <;>
        simp [told,Told.Answers,keyStep,datumEqual,datumLess,inOrder,bind,Except.bind,pure,Except.pure]
    | padded =>
      fin_cases htyp <;> simp [told,Told.Answers,keyStep,datumEqual,bind,Except.bind]
    | value h => simp [told,h.not_nil,Told.Answers,keyStep,datumEqual_padded htyp,bind,Except.bind]
  | value h =>
    cases hb with
    | scanned =>
      cases desc <;> simp [told,Told.Answers,keyStep,datumEqual,h.not_nil,h.not_null,
        h.not_null.symm,h.nil_lt,
        not_lt_of_gt h.nil_lt,bind,Except.bind,pure,Except.pure]
    | padded => simp [told,h.not_nil,Told.Answers,keyStep,datumEqual_padded htyp,bind,Except.bind]
    | value h' => exact told_values h h'

end Comparison

section Rows
variable {lib : GoLib} {keys : List SortKey} {u v : Row} {rows : List Row} {child : Operator}

/-- The comparison answers both ways as this ordering does exactly if this is what is told of the rows. -/
lemma sortLess_tell (lib : GoLib) {o : Ordering} (h : Sortable keys [u,v]) :
    (sortLess lib keys u v = .ok (decide (o = .lt)) ∧
      sortLess lib keys v u = .ok (decide (o = .gt))) ↔ tell keys u v = some o := by
  induction keys with
  | nil => cases o <;> simp [sortLess,tell]
  | cons key keys ih =>
    have hrest := ih fun k hk => h k (List.mem_cons_of_mem _ hk)
    obtain ⟨typ,htyp,hcol⟩ := h key (List.mem_cons_self ..)
    obtain ⟨a,ha,hac⟩ := hcol u (by simp)
    obtain ⟨b,hb,hbc⟩ := hcol v (by simp)
    have hans := told_answers lib key.desc htyp hac hbc
    rw [sortLess_cons ha hb,sortLess_cons hb ha]
    simp only [tell,ha,hb]
    cases htold : told key.desc a b with
    | same =>
      rw [htold] at hans
      simpa [hans.1,hans.2,bind,Except.bind] using hrest
    | lower =>
      rw [htold] at hans
      cases o <;> simp [hans.1,hans.2,bind,Except.bind]
    | higher =>
      rw [htold] at hans
      cases o <;> simp [hans.1,hans.2,bind,Except.bind]
    | undecided =>
      rw [htold] at hans
      cases o <;> simp [hans.1,hans.2,bind,Except.bind]
    | conflict =>
      rw [htold] at hans
      obtain hans | hans | hans := hans
      · simp [hans,bind,Except.bind]
      · simp [hans,bind,Except.bind]
      · cases o <;> simp [hans.1,hans.2,bind,Except.bind]

lemma compares_iff {rank : Row → ℕ} (h : Sortable keys [u,v]) :
    Compares (sortLess lib keys) (RankLe rank) u v ↔ tell keys u v = some (compare (rank u) (rank v)) := by
  rw [← sortLess_tell lib h,Compares]
  simp only [RankLe,not_le,Nat.compare_eq_lt,Nat.compare_eq_gt]

lemma Sortable.pair (h : Sortable keys rows) (hu : u ∈ rows) (hv : v ∈ rows) : Sortable keys [u,v] := by
  intro key hkey
  obtain ⟨typ,htyp,hcol⟩ := h key hkey
  refine ⟨typ,htyp,fun row hrow => hcol row ?_⟩
  obtain rfl | hrow := List.mem_cons.mp hrow
  · exact hu
  · rwa [List.mem_singleton.mp hrow]

lemma runs_sortBy_iff (hchild : child.Runs rows) (sorter : Sorter Row Err) {out : List Row} :
    (sortNodeBy sorter.sort lib child keys).Runs out ↔ sorter.sort (sortLess lib keys) rows = .ok out := by
  constructor
  · intro h
    obtain ⟨below,hbelow,hsort⟩ := runs_sortBy h
    rwa [hchild.unique hbelow]
  · exact sortBy_runs hchild

instance : Inhabited Err := ⟨.panic⟩

/-- Whatever stable sort it calls, the node puts the rows out in the order of its keys exactly if
what is told of every two rows comes from one ranking, and this ranking puts a later row below an
earlier one exactly where the keys do. -/
theorem sorted_iff (lib : GoLib) (hchild : child.Runs rows) (hrows : Sortable keys rows) :
    (∀ sorter : Sorter Row Err,
      (sortNodeBy sorter.sort lib child keys).Runs (rows.insertionSort (KeysLe keys))) ↔
      ∃ rank : Row → ℕ, rows.Pairwise (fun u v => tell keys u v = some (compare (rank u) (rank v))) ∧
        rows.Pairwise fun u v => rank u ≤ rank v ↔ KeysLe keys u v := by
  have htell : ∀ rank : Row → ℕ, rows.Pairwise (Compares (sortLess lib keys) (RankLe rank)) ↔
      rows.Pairwise fun u v => tell keys u v = some (compare (rank u) (rank v)) := by
    intro rank
    exact List.Pairwise.iff_of_mem fun hu hv => compares_iff (hrows.pair hu hv)
  simp only [runs_sortBy_iff hchild,sorts_iff,htell]

end Rows

section Given
variable {rows : List Row}

def givenNext : List Row → Comp (Answer Err Row × List Row)
  | [] => return (.eof,[])
  | row::rows => return (.row row,rows)

def givenNode (rows : List Row) : Operator where
  State := List Row
  init := rows
  schema := ⟨[]⟩
  plannerSchema := none
  openNode s := return (.ok (),s)
  next := givenNext
  close s := (.ok (),s)

lemma givenNode_runs (rows : List Row) : (givenNode rows).Runs rows := by
  refine ⟨rows,[],Comp.returns_pure.mpr rfl,?_⟩
  induction rows with
  | nil => exact ⟨_,.nil,Comp.returns_pure.mpr rfl⟩
  | cons row rows ih => exact ih.cons (Comp.returns_pure.mpr rfl)

/-- The node of the source calls the insertion sort, which is one of the stable sorts. -/
lemma sortNode_eq (lib : GoLib) (child : Operator) (keys : List SortKey) :
    sortNode lib child keys = sortNodeBy (stableSorter Row Err).sort lib child keys := rfl

lemma runs_sort_given {lib : GoLib} {keys : List SortKey} {out : List Row}
    (h : (sortNode lib (givenNode rows) keys).Runs out) :
    sliceStable (sortLess lib keys) rows = .ok out := by
  rw [sortNode_eq] at h
  exact (runs_sortBy_iff (givenNode_runs rows) (stableSorter Row Err)).mp h

end Given

def numberRow (value : Datum) (rowID : UInt64) : Row := ⟨[value],rowID⟩

/-- Numbers and one NULL of a scan. -/
def numberRows : List Row :=
  [numberRow ⟨.int64,.int64 7⟩ 1,numberRow ⟨.null,.nil⟩ 2,numberRow ⟨.int64,.int64 3⟩ 3,
    numberRow ⟨.int64,.int64 7⟩ 4]

lemma numberRows_sortable : Sortable [⟨0,true⟩] numberRows := by
  intro key hkey
  obtain rfl := List.mem_singleton.mp hkey
  refine ⟨.int64,by simp [keyTypes],fun row hrow => ?_⟩
  fin_cases hrow
  · exact ⟨_,rfl,.value (.int64 7)⟩
  · exact ⟨_,rfl,.scanned⟩
  · exact ⟨_,rfl,.value (.int64 3)⟩
  · exact ⟨_,rfl,.value (.int64 7)⟩

theorem sorted_numbers : (givenNode numberRows).Runs numberRows ∧ Sortable [⟨0,true⟩] numberRows ∧
    ∀ sorter : Sorter Row Err, (sortNodeBy sorter.sort plainLib (givenNode numberRows) [⟨0,true⟩]).Runs
      (numberRows.insertionSort (KeysLe [⟨0,true⟩])) := by
  refine ⟨givenNode_runs numberRows,numberRows_sortable,?_⟩
  refine (sorted_iff plainLib (givenNode_runs numberRows) numberRows_sortable).mpr ⟨fun row => ?_,?_,?_⟩
  · exact if row.rowID = 2 then 2 else if row.rowID = 3 then 1 else 0
  · decide +kernel
  · decide +kernel

/-- Two truth values are left as they stand, two NULLs change places when the order is downwards,
and a NULL that a join has put in cannot be compared with a number. -/
theorem sorts_wrong :
    ¬ (sortNode plainLib (givenNode [⟨[boolDatum true],1⟩,⟨[boolDatum false],2⟩]) [⟨0,false⟩]).Runs
      [⟨[boolDatum false],2⟩,⟨[boolDatum true],1⟩] ∧
    ¬ (sortNode plainLib (givenNode [⟨[⟨.null,.nil⟩],1⟩,⟨[⟨.null,.nil⟩],2⟩]) [⟨0,true⟩]).Runs
      [⟨[⟨.null,.nil⟩],1⟩,⟨[⟨.null,.nil⟩],2⟩] ∧
    ¬ ∃ out, (sortNode plainLib (givenNode [⟨[⟨.int64,.nil⟩],1⟩,⟨[⟨.int64,.int64 5⟩],2⟩])
      [⟨0,false⟩]).Runs out := by
  refine ⟨fun h => ?_,fun h => ?_,fun ⟨out,h⟩ => ?_⟩
  · exact absurd (runs_sort_given h) (by decide +kernel)
  · exact absurd (runs_sort_given h) (by decide +kernel)
  · have hpanic : sliceStable (sortLess plainLib [⟨0,false⟩]) [⟨[⟨.int64,.nil⟩],1⟩,
      ⟨[⟨.int64,.int64 5⟩],2⟩] = .error .panic := by decide +kernel
    cases hpanic.symm.trans (runs_sort_given h)

end Plomvix.Planner
