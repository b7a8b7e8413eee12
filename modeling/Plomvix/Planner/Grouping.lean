import Plomvix.Lib.CursorEnds
import Plomvix.Lib.Slices
import Plomvix.Planner.Sorting
import Plomvix.Planner.JoinMeaning

/-! The groups of the rows: they are kept under a text made of the values of their key, and the
aggregates are taken in row by row. -/
namespace Plomvix.Planner
open Lib Engine Plomvix.Lib.Comp Plomvix.Lib.Cursor Plomvix.Lib.Fallible

section Tracks
variable {lib : PlanLib} {text : Row → Bytes}
  {acc : List Row → AggRequest → AggAccumulator → Prop} {groupKeys : List ℕ}
  {aggs : List AggRequest} {rows : List Row} {row : Row} {groups groups' : Groups}

/-- The groups of the rows so far: one under each text, with the key of the first row that has it
and what the accumulators have kept of the rows that have it. -/
structure Tracks (text : Row → Bytes) (acc : List Row → AggRequest → AggAccumulator → Prop)
    (groupKeys : List ℕ) (aggs : List AggRequest)
    (rows : List Row) (groups : Groups) : Prop where
  texts : groups.map (·.1) = firsts (rows.map text)
  datums : ∀ g ∈ groups, ∃ row, (rows.filter fun r => text r = g.1).head? = some row ∧
    groupDatums groupKeys row = .ok g.2.1
  kept : ∀ g ∈ groups, aggs.Forall₂ (acc (rows.filter fun r => text r = g.1)) g.2.2

lemma Tracks.nil : Tracks text acc groupKeys aggs [] [] := ⟨rfl,by simp,by simp⟩

lemma filter_text_snoc (b : Bytes) : (rows++[row]).filter (fun r => text r = b) =
    if text row = b then rows.filter (fun r => text r = b)++[row] else
      rows.filter fun r => text r = b := by
  rw [List.filter_append]
  split_ifs with h <;> simp [h]

lemma Tracks.addNew (h : Tracks text acc groupKeys aggs rows groups)
    (hnew : text row ∉ rows.map text) {datums : List Datum}
    (hdatums : groupDatums groupKeys row = .ok datums) {accs : List AggAccumulator}
    (haccs : aggs.Forall₂ (acc [row]) accs) :
    Tracks text acc groupKeys aggs (rows++[row]) (groups++[(text row,datums,accs)]) := by
  have hnone : rows.filter (fun r => text r = text row) = [] := by
    simp only [List.filter_eq_nil_iff,decide_eq_true_eq]
    exact fun r hr heq => hnew (heq ▸ List.mem_map_of_mem hr)
  have hother : ∀ g ∈ groups, text row≠g.1 := by
    intro g hg heq
    have hmem : g.1 ∈ groups.map (·.1) := List.mem_map_of_mem hg
    rw [h.texts,mem_firsts,← heq] at hmem
    exact hnew hmem
  refine ⟨?_,?_,?_⟩
  · rw [List.map_append,h.texts,List.map_append,List.map_singleton,List.map_singleton,firsts_snoc,
      if_neg hnew]
  · intro g hg
    rw [filter_text_snoc]
    obtain hg | hg := List.mem_append.mp hg
    · rw [if_neg (hother g hg)]
      exact h.datums g hg
    · rw [List.mem_singleton.mp hg,if_pos rfl,hnone]
      exact ⟨row,rfl,hdatums⟩
  · intro g hg
    rw [filter_text_snoc]
    obtain hg | hg := List.mem_append.mp hg
    · rw [if_neg (hother g hg)]
      exact h.kept g hg
    · rw [List.mem_singleton.mp hg,if_pos rfl,hnone]
      exact haccs

lemma Tracks.addTo (h : Tracks text acc groupKeys aggs rows groups)
    (hmem : text row ∈ rows.map text) {accs : List AggAccumulator}
    (haccs : aggs.Forall₂ (acc (rows.filter (fun r => text r = text row)++[row])) accs) :
    Tracks text acc groupKeys aggs (rows++[row]) (groups.map fun g => if g.1 = text row then
      (g.1,g.2.1,accs) else g) := by
  refine ⟨?_,?_,?_⟩
  · rw [List.map_append,List.map_singleton,firsts_snoc,if_pos hmem,← h.texts,List.map_map]
    refine List.map_congr_left fun g _ => ?_
    simp only [Function.comp]
    split_ifs <;> rfl
  · intro g' hg'
    obtain ⟨g,hg,rfl⟩ := List.mem_map.mp hg'
    obtain ⟨first,hfirst,hdatums⟩ := h.datums g hg
    have hsame : (if g.1 = text row then (g.1,g.2.1,accs) else g).1 = g.1 := by split_ifs <;> rfl
    have hsame' : (if g.1 = text row then (g.1,g.2.1,accs) else g).2.1 = g.2.1 := by split_ifs <;> rfl
    rw [hsame,hsame']
    refine ⟨first,?_,hdatums⟩
    rw [List.filter_append,List.head?_append,hfirst,Option.some_or]
  · intro g' hg'
    obtain ⟨g,hg,rfl⟩ := List.mem_map.mp hg'
    rw [filter_text_snoc]
    by_cases heq : g.1 = text row
    · rw [if_pos heq,if_pos heq.symm,heq]
      exact haccs
    · rw [if_neg heq,if_neg (Ne.symm heq)]
      exact h.kept g hg

/-- The row has this key, and this is the text under which its group is kept. -/
structure HasText (lib : PlanLib) (groupKeys : List ℕ) (row : Row) (datums : List Datum)
    (b : Bytes) : Prop where
  read : groupDatums groupKeys row = .ok datums
  written : (datums.mapM (serializeDatum lib)).map joinKey = .ok b

lemma addRow_eq {datums : List Datum} {b : Bytes} (h : HasText lib groupKeys row datums b) :
    Groups.addRow lib groupKeys aggs groups row = match groups.find? fun g => g.1 = b with
      | none =>
        do return groups++[(b,datums,
          ← accumulateAll lib row (aggs.zip (aggs.map fun agg => .new agg.op)))]
      | some found => do
        let accums ← accumulateAll lib row (aggs.zip found.2.2)
        return groups.map fun g => if g.1 = b then (g.1,g.2.1,accums) else g := by
  obtain ⟨parts,hparts,rfl⟩ := map_eq_ok.mp h.written
  rewrite [Groups.addRow,h.read]
  change (datums.mapM (serializeDatum lib)).bind _ = _
  rewrite [hparts]
  rfl

lemma Tracks.mem_text (h : Tracks text acc groupKeys aggs rows groups)
    {found : Bytes × List Datum × List AggAccumulator}
    (hfind : groups.find? (fun g => g.1 = text row) = some found) :
    found.1 = text row ∧ text row ∈ rows.map text := by
  have htext : found.1 = text row := by simpa using List.find?_some hfind
  refine ⟨htext,?_⟩
  rw [← mem_firsts,← h.texts,← htext]
  exact List.mem_map_of_mem (List.mem_of_find?_eq_some hfind)

lemma Tracks.not_mem_text (h : Tracks text acc groupKeys aggs rows groups)
    (hfind : groups.find? (fun g => g.1 = text row) = none) :
    text row ∉ rows.map text := by
  rw [← mem_firsts,← h.texts]
  intro hmem
  obtain ⟨g,hg,heq⟩ := List.mem_map.mp hmem
  simpa [heq] using List.find?_eq_none.mp hfind g hg

lemma Tracks.addRow (h : Tracks text acc groupKeys aggs rows groups)
    (hstart : ∀ agg ∈ aggs, acc [] agg (.new agg.op)) {datums : List Datum}
    (htext : HasText lib groupKeys row datums (text row))
    (hstep : ∀ (group : List Row) (accs accs' : List AggAccumulator), (∀ r ∈ group, r ∈ rows) →
      aggs.Forall₂ (acc group) accs →
      accumulateAll lib row (aggs.zip accs) = .ok accs' → aggs.Forall₂ (acc (group++[row])) accs')
    (hadd : Groups.addRow lib groupKeys aggs groups row = .ok groups') :
    Tracks text acc groupKeys aggs (rows++[row]) groups' := by
  rw [addRow_eq htext] at hadd
  cases hfind : groups.find? fun g => g.1 = text row with
  | none =>
    rw [hfind] at hadd
    obtain ⟨accs,haccs,hpure⟩ := bind_eq_ok.mp hadd
    cases pure_eq_ok.mp hpure
    have hnew : aggs.Forall₂ (acc []) (aggs.map fun agg => .new agg.op) := by
      rw [List.forall₂_map_right_iff,List.forall₂_same]
      exact hstart
    exact h.addNew (h.not_mem_text hfind) htext.read (hstep [] _ _ (by simp) hnew haccs)
  | some found =>
    rw [hfind] at hadd
    obtain ⟨accs,haccs,hpure⟩ := bind_eq_ok.mp hadd
    cases pure_eq_ok.mp hpure
    obtain ⟨hfound,hmem⟩ := h.mem_text hfind
    have hkept := h.kept found (List.mem_of_find?_eq_some hfind)
    rw [hfound] at hkept
    exact h.addTo hmem (hstep _ _ _ (fun r hr => List.mem_of_mem_filter hr) hkept haccs)

end Tracks

section Node
variable {lib : PlanLib} {child : Operator}
  {typ : ℕ → Typ} {groupKeys : List ℕ} {aggs : List AggRequest} {rows out : List Row} {groups : Groups}

def outRow (g : Bytes × List Datum × List AggAccumulator) : Row := ⟨g.2.1++g.2.2.map (·.result),0⟩

lemma hashAgg_opens (lib : PlanLib) (groupKeys : List ℕ) (aggs : List AggRequest) (hchild :
      child.Runs rows) (hfold : rows.foldlM (Groups.addRow lib groupKeys aggs) [] = .ok groups) :
    ∃ c, (hashAggOpen lib child groupKeys aggs ⟨child.init,[],0,false⟩).Returns (.ok (),
      ⟨c,groups,0,true⟩) := by
  obtain ⟨s,s',hopen,hs⟩ := hchild
  exact ⟨s',returns_bind.mpr ⟨_,hopen,returns_bind.mpr ⟨_,fold_returns hs hfold,returns_pure.mpr rfl⟩⟩⟩

lemma streams_groups (c : child.State) (h : groupKeys≠[] ∨ groups≠[]) :
    Streams (hashAggNext child groupKeys aggs) ⟨c,groups,0,true⟩
    (groups.map outRow) ⟨c,groups,groups.length,true⟩ := by
  have hmore : ¬ (groupKeys = [] ∧ groups = []) := by tauto
  refine Streams.of_items (l := groups.map outRow) (i := 0) (fun i =>
    AggState.mk c groups i true) ?_ ?_ (Nat.zero_le _)
  · intro i row hrow
    rw [List.getElem?_map,Option.map_eq_some_iff] at hrow
    obtain ⟨g,hg,rfl⟩ := hrow
    simp only [hashAggNext,hmore,hg]
    exact returns_pure.mpr rfl
  · simp only [hashAggNext,hmore,List.length_map,List.getElem?_length]
    exact returns_pure.mpr rfl

lemma agg_not_ends (c : child.State) (i : ℕ) : ¬ Ends (hashAggNext child [] aggs) ⟨c,[],i,true⟩ := by
  refine not_ends_of_rows (P := fun s => s.opened = true ∧ s.groups = []) ?_ ⟨rfl,rfl⟩
  rintro ⟨c,groups,i,opened⟩ ⟨rfl,rfl⟩
  exact ⟨_,⟨c,[],1,true⟩,returns_pure.mpr rfl,rfl,rfl⟩

lemma agg_never_ends (hchild : child.Runs []) : ¬ (hashAggNode lib child [] aggs).Runs out := by
  rintro ⟨s,s',hopen,hs⟩
  obtain ⟨c,hopen'⟩ := hashAgg_opens lib [] aggs hchild rfl
  obtain ⟨-,rfl⟩ := Prod.mk.inj (hopen'.unique hopen)
  exact agg_not_ends c 0 hs.ends

lemma forall₂_iff_of {α β : Type} {R S : α → β → Prop} {T : α → Prop} {l : List α} {l' : List β}
    (h : l.Forall₂ R l')
    (hiff : ∀ a ∈ l, ∀ b, R a b → (S a b ↔ T a)) : l.Forall₂ S l' ↔ ∀ a ∈ l, T a := by
  induction h with
  | nil => simp
  | @cons a b l l' hab _ ih =>
    rw [List.forall₂_cons,List.forall_mem_cons,hiff a (by simp) b hab,ih fun a ha => hiff a (by simp [ha])]

end Node

def textDatum (s : Bytes) : Datum := ⟨.string,.string s⟩
def intDatum (i : Int64) : Datum := ⟨.int64,.int64 i⟩

end Plomvix.Planner
