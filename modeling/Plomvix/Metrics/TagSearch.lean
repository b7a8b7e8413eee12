import Plomvix.Metrics.Store
import Plomvix.Lib.Postings
import Plomvix.Engine.Schema

/-! Lookups in the tag index after any inserts and sweeps. -/
namespace Plomvix.Metrics
open Lib Engine

/-- The order of the places in the store. -/
def RecordLocator.before (a b : RecordLocator) : Bool :=
  a.pageID < b.pageID || (a.pageID = b.pageID && a.offset < b.offset)

/-- Both lists are taken to be in order. -/
def intersectLocs : List RecordLocator → List RecordLocator → List RecordLocator :=
  Postings.inter RecordLocator.before

namespace TagIndex

/-- The constraints after the first; `none` is nil. -/
def searchFrom (idx : TagIndex) : List RecordLocator → List (Bytes × Bytes) → Option (List RecordLocator)
  | found,[] => some found
  | found,kv::rest =>
    if idx kv.1 kv.2 = [] then none
    else
      let both := intersectLocs found (idx kv.1 kv.2)
      if both = [] then none else searchFrom idx both rest

/-- `none` is a search that finds nothing. -/
def searchAll (idx : TagIndex) : List (Bytes × Bytes) → Option (List RecordLocator)
  | [] => none
  | kv::rest => if idx kv.1 kv.2 = [] then none else searchFrom idx (idx kv.1 kv.2) rest

/-- What is older than the cutoff is forgotten. -/
def sweep (idx : TagIndex) (cutoff : Int64) : TagIndex :=
  fun key val => (idx key val).filter (cutoff ≤ ·.timestamp)

end TagIndex

def Common (index : Option TagIndex) (tags : List (Bytes × Bytes)) (loc : RecordLocator) : Prop :=
  ∀ kv ∈ tags, ∃ idx ∈ index, loc ∈ idx kv.1 kv.2

instance (index : Option TagIndex) (tags : List (Bytes × Bytes)) (loc : RecordLocator) :
    Decidable (Common index tags loc) :=
  match index with
  | none => decidable_of_iff (∀ kv ∈ tags, False) (by simp [Common])
  | some idx => decidable_of_iff (∀ kv ∈ tags, loc ∈ idx kv.1 kv.2) (by simp [Common])

section Search
variable {idx : TagIndex} {locs : List RecordLocator}

lemma before_asymm (a b : RecordLocator) (h : a.before b = true) : b.before a = false := by
  simp only [RecordLocator.before,Bool.or_eq_true,Bool.and_eq_true,decide_eq_true_eq,
    Bool.or_eq_false_iff,Bool.and_eq_false_iff,
    decide_eq_false_iff_not] at h ⊢
  omega

lemma filter_eq_nil_of_imp {α : Type} {p q : α → Bool} {l : List α} (h : l.filter p = [])
    (hpq : ∀ a, q a = true → p a = true) :
    l.filter q = [] :=
  List.filter_eq_nil_iff.mpr fun a ha hq => List.filter_eq_nil_iff.mp h a ha (hpq a hq)

lemma nodup_of_pairwise (h : locs.Pairwise fun a b => a.before b = true) : locs.Nodup := by
  refine h.imp fun {a b} hab heq => ?_
  have hba := before_asymm a b hab
  rw [heq] at hab hba
  exact absurd hab (by simp [hba])

lemma searchFrom_eq (hidx : ∀ key val, (idx key val).Sublist locs)
    (hlocs : locs.Pairwise fun a b => a.before b = true)
    (p : RecordLocator → Bool) (tags : List (Bytes × Bytes)) (hp : locs.filter p≠[]) :
    idx.searchFrom (locs.filter p) tags =
      let found := locs.filter fun a => p a && tags.all fun kv => a ∈ idx kv.1 kv.2
      if found = [] then none else some found := by
  induction tags generalizing p with
  | nil => simp [TagIndex.searchFrom,hp]
  | cons kv tags ih =>
    have hlist := Postings.eq_filter_of_sublist (hidx kv.1 kv.2) (nodup_of_pairwise hlocs)
    have hboth : intersectLocs (locs.filter p) (idx kv.1 kv.2) = locs.filter fun a =>
      p a && decide (a ∈ idx kv.1 kv.2) := by
      nth_rewrite 1 [hlist]
      exact Postings.inter_filter before_asymm hlocs p _
    have hall : (locs.filter fun a => p a && (kv::tags).all fun kv => a ∈ idx kv.1 kv.2) =
        locs.filter fun a => (p a && decide (a ∈ idx kv.1 kv.2)) && tags.all fun kv =>
          a ∈ idx kv.1 kv.2 := by
      simp only [List.all_cons,Bool.and_assoc]
    simp only [TagIndex.searchFrom,hboth,hall]
    by_cases hsome : (locs.filter fun a => p a && decide (a ∈ idx kv.1 kv.2)) = []
    · rw [if_pos hsome,ite_self,if_pos (filter_eq_nil_of_imp hsome fun a ha =>
        (Bool.and_eq_true_iff.mp ha).1)]
    · have hne : idx kv.1 kv.2≠[] := by
        intro hnil
        apply hsome
        simp [hnil]
      rw [if_neg hne,if_neg hsome]
      exact ih _ hsome

theorem searchAll_eq (hidx : ∀ key val, (idx key val).Sublist locs)
    (hlocs : locs.Pairwise fun a b => a.before b = true)
    {tags : List (Bytes × Bytes)} (htags : tags≠[]) :
    idx.searchAll tags =
      if locs.filter (Common (some idx) tags ·) = [] then none else
        some (locs.filter (Common (some idx) tags ·)) := by
  obtain ⟨kv,rest,rfl⟩ := List.exists_cons_of_ne_nil htags
  have hlist := Postings.eq_filter_of_sublist (hidx kv.1 kv.2) (nodup_of_pairwise hlocs)
  have hcommon : locs.filter (Common (some idx) (kv::rest) ·) =
      locs.filter fun a => decide (a ∈ idx kv.1 kv.2) && rest.all fun kv => a ∈ idx kv.1 kv.2 := by
    refine List.filter_congr fun a _ => ?_
    rw [Bool.eq_iff_iff,decide_eq_true_iff]
    simp [Common]
  rw [TagIndex.searchAll,hcommon]
  by_cases hnil : idx kv.1 kv.2 = []
  · simp [hnil]
  · have hsearch := searchFrom_eq hidx hlocs (· ∈ idx kv.1 kv.2) rest (hlist ▸ hnil)
    rw [← hlist] at hsearch
    rw [if_neg hnil,hsearch]

end Search

/-- What changes the index. -/
inductive TagOp
  | insert (tags : Bytes) (loc : RecordLocator)
  | sweep (cutoff : Int64)

/-- `none` is a panic. -/
def TagOp.run (trimSpace : Bytes → Bytes) : TagOp → TagIndex → Option TagIndex
  | .insert tags loc,idx => idx.insert trimSpace tags loc
  | .sweep cutoff,idx => some (idx.sweep cutoff)

def runOps (trimSpace : Bytes → Bytes) (ops : List TagOp) (idx : TagIndex) : Option TagIndex :=
  ops.foldlM (fun idx op => op.run trimSpace idx) idx

/-- The tag strings with their locators, in the order of the inserts. -/
def insertedPairs (ops : List TagOp) : List (Bytes × RecordLocator) := ops.filterMap fun
  | .insert tags loc => some (tags,loc)
  | .sweep _ => none

def cutoffs (ops : List TagOp) : List Int64 := ops.filterMap fun
  | .insert _ _ => none
  | .sweep cutoff => some cutoff

def young (ops : List TagOp) (loc : RecordLocator) : Bool := (cutoffs ops).all (· ≤ loc.timestamp)

def surviving : List TagOp → List (Bytes × RecordLocator)
  | [] => []
  | .insert tags loc::ops => if young ops loc then (tags,loc)::surviving ops else surviving ops
  | .sweep _::ops => surviving ops

section Runs
variable (trimSpace : Bytes → Bytes)

def hasPair (tags key val : Bytes) : Bool := ((splitTagPairs trimSpace tags).bind (· key)) = some val

/-- The locators whose tags have all pairs. -/
def matching (ops : List TagOp) (constraints : List (Bytes × Bytes)) : List RecordLocator :=
  ((surviving ops).filter fun x => constraints.all fun kv => hasPair trimSpace x.1 kv.1 kv.2).map Prod.snd

def postings (ops : List TagOp) : TagIndex :=
  fun key val => ((surviving ops).filter fun x => hasPair trimSpace x.1 key val).map Prod.snd

variable {trimSpace} {ops : List TagOp} {idx : TagIndex}

lemma surviving_sublist (ops : List TagOp) : (surviving ops).Sublist (insertedPairs ops) := by
  induction ops with
  | nil => exact List.Sublist.refl _
  | cons op ops ih =>
    cases op with
    | insert tags loc =>
      rw [surviving]
      split_ifs
      · exact ih.cons_cons _
      · exact ih.cons _
    | sweep cutoff => exact ih

/-- Each list of the index holds what was in it and what was inserted with its pair, without what a
later sweep removes. -/
lemma runOps_eq (hparse : ∀ x ∈ insertedPairs ops, splitTagPairs trimSpace x.1≠none) :
    runOps trimSpace ops idx = some fun key val =>
      (idx key val).filter (young ops)++postings trimSpace ops key val := by
  induction ops generalizing idx with
  | nil =>
    have hall : ∀ l : List RecordLocator, l.filter (young []) = l :=
      fun l => List.filter_eq_self.mpr fun _ _ => rfl
    simp [runOps,hall,postings,surviving]
  | cons op ops ih =>
    cases op with
    | insert tags loc =>
      obtain ⟨hparse,hrest⟩ := List.forall_mem_cons.mp hparse
      obtain ⟨pairs,hpairs⟩ := Option.ne_none_iff_exists'.mp hparse
      rw [runOps,List.foldlM_cons,TagOp.run,TagIndex.insert,hpairs]
      refine (ih hrest).trans (congrArg some (funext₂ fun key val => ?_))
      have hpair : hasPair trimSpace tags key val = decide (pairs key = some val) := by
        rw [hasPair,hpairs]; rfl
      have hyoung : young (.insert tags loc::ops) = young ops := rfl
      rw [hyoung,postings,postings,surviving]
      by_cases hval : pairs key = some val <;> by_cases hloc : young ops loc = true <;>
        simp [hpair,hval,hloc]
    | sweep cutoff =>
      refine (ih hparse).trans (congrArg some (funext₂ fun key val => ?_))
      have hyoung : young (.sweep cutoff::ops) = fun loc =>
        decide (cutoff ≤ loc.timestamp) && young ops loc := rfl
      rw [TagIndex.sweep,List.filter_filter,hyoung]
      simp only [Bool.and_comm]
      rfl

lemma runOps_new (hparse : ∀ x ∈ insertedPairs ops, splitTagPairs trimSpace x.1≠none) :
    runOps trimSpace ops newTagIndex = some (postings trimSpace ops) := runOps_eq hparse

/-- A locator stands for one insert only, so it is under a pair exactly if the tags of that insert
have it. -/
lemma mem_postings_iff (hlocs : ((surviving ops).map Prod.snd).Nodup) {x : Bytes × RecordLocator}
    (hx : x ∈ surviving ops) (key val : Bytes) :
    x.2 ∈ postings trimSpace ops key val ↔ hasPair trimSpace x.1 key val = true := by
  rw [postings,List.mem_map]
  constructor
  · rintro ⟨y,hy,heq⟩
    obtain ⟨hy,hpair⟩ := List.mem_filter.mp hy
    rwa [← List.inj_on_of_nodup_map hlocs hy hx heq]
  · exact fun hpair => ⟨x,List.mem_filter.mpr ⟨hx,hpair⟩,rfl⟩

lemma filter_common (hlocs : ((surviving ops).map Prod.snd).Nodup)
    {constraints order : List (Bytes × Bytes)} (horder : order.Perm constraints) :
    ((surviving ops).map Prod.snd).filter (Common (some (postings trimSpace ops)) order ·) =
      matching trimSpace ops constraints := by
  rw [List.filter_map,matching]
  congr 1
  refine List.filter_congr fun x hx => ?_
  rw [Bool.eq_iff_iff,Function.comp_apply,decide_eq_true_iff,List.all_eq_true]
  simp only [Common,Option.mem_some_iff,exists_eq_left',mem_postings_iff hlocs hx,horder.mem_iff]

end Runs

/-- A search returns, in order, the locators whose tags have all pairs and that no later sweep
removed, and nil if there are none, in whatever order it takes the constraints. -/
theorem searchAll_exact (trimSpace : Bytes → Bytes) (ops : List TagOp)
    (hparse : ∀ x ∈ insertedPairs ops, splitTagPairs trimSpace x.1≠none)
    (hincreasing : (insertedPairs ops).Pairwise fun x y => x.2.before y.2 = true)
    (constraints order : List (Bytes × Bytes)) (hne : constraints≠[])
    (horder : order.Perm constraints) : ∃ idx, runOps trimSpace ops newTagIndex = some idx ∧
      idx.searchAll order = (if matching trimSpace ops constraints = [] then none else
        some (matching trimSpace ops constraints)) ∧
      (matching trimSpace ops constraints).Pairwise fun a b => a.before b = true := by
  have hsurviving := hincreasing.sublist (surviving_sublist ops)
  have hlocs : ((surviving ops).map Prod.snd).Pairwise fun a b => a.before b = true :=
    List.pairwise_map.mpr hsurviving
  have horder' : order≠[] := by
    rintro rfl
    exact hne (List.nil_perm.mp horder)
  refine ⟨_,runOps_new hparse,?_,List.pairwise_map.mpr (hsurviving.sublist List.filter_sublist)⟩
  have hpart : ∀ key val, (postings trimSpace ops key val).Sublist ((surviving ops).map Prod.snd) :=
    fun _ _ => List.filter_sublist.map _
  rw [searchAll_eq hpart hlocs horder',filter_common (nodup_of_pairwise hlocs) horder]

/-- Two points with a tag in common, of which the first is swept. -/
theorem searchAll_after_sweep :
    ∃ idx, runOps id [.insert [97,61,49] ⟨1,12,5⟩,.insert [97,61,49,44,98,61,50] ⟨1,40,9⟩,.sweep 7,
      .insert [98,61,50] ⟨2,12,1⟩] newTagIndex = some idx ∧
      idx.searchAll [([98],[50])] = some [⟨1,40,9⟩,⟨2,12,1⟩] := by
  obtain ⟨idx,hrun,hsearch,-⟩ := searchAll_exact id
    [.insert [97,61,49] ⟨1,12,5⟩,.insert [97,61,49,44,98,61,50] ⟨1,40,9⟩,.sweep 7,
      .insert [98,61,50] ⟨2,12,1⟩]
    (by decide +kernel) (by decide +kernel) [([98],[50])] [([98],[50])] (by decide) (List.Perm.refl _)
  exact ⟨idx,hrun,hsearch.trans (by decide +kernel)⟩

end Plomvix.Metrics
