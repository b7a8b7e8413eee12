import Plomvix.Lib.Versions

/-! Tables of version chains by key: the newest version of a key is its row, or a tombstone. -/
namespace Plomvix.Lib

namespace Chain
variable {V R : Type} [LinearOrder V]

def newest (c : Chain V R) : Option R := c.versions.getLast?.bind Prod.snd

instance (c : Chain V R) (v : V) : Decidable (c.Before v) :=
  inferInstanceAs (Decidable (∀ x ∈ c.versions, x.1 < v))

lemma visible_eq_newest {c : Chain V R} {v : V} (h : ∀ x ∈ c.versions, x.1 ≤ v) :
    c.visible v = c.newest := by
  rw [visible,latestOf_all h,newest]

@[simp] lemma newest_push (c : Chain V R) (v : V) (r : Option R) (h : c.Before v) :
    (c.push v r h).newest = r := by
  simp [newest,push]

end Chain

/-- A chain of versions for each key. -/
structure VersionTable (K V R : Type) [LinearOrder K] [LinearOrder V] where
  chains : List (K × Chain V R)
  sorted : Assoc.Sorted chains

namespace VersionTable
variable {K V R : Type} [LinearOrder K] [LinearOrder V]

lemma sorted_nil : Assoc.Sorted ([] : List (K × Chain V R)) := List.Pairwise.nil

def empty : VersionTable K V R := ⟨[],sorted_nil⟩

def chain (t : VersionTable K V R) (k : K) : Chain V R := (Assoc.lookup k t.chains).getD Chain.empty

def push (t : VersionTable K V R) (k : K) (v : V) (r : Option R) (h : (t.chain k).Before v) :
    VersionTable K V R where
  chains := Assoc.put k ((t.chain k).push v r h) t.chains
  sorted := Assoc.sorted_put _ _ t.sorted

def live (t : VersionTable K V R) (k : K) : Option R := (t.chain k).newest

/-- The rows with their keys, in the order of the keys. -/
def rows (t : VersionTable K V R) : List (K × R) :=
  t.chains.filterMap fun e => e.2.newest.map fun r => (e.1,r)

def UpTo (t : VersionTable K V R) (v : V) : Prop := ∀ k, ∀ x ∈ (t.chain k).versions, x.1 ≤ v

section Lemmas
variable {t : VersionTable K V R} {k j : K} {v w : V} {r : Option R}

lemma chain_push (h : (t.chain k).Before v) :
    (t.push k v r h).chain j = if j = k then (t.chain k).push v r h else t.chain j := by
  rw [chain,push,Assoc.lookup_put]
  by_cases hj : j = k
  · rw [if_pos hj,if_pos hj,Option.getD_some]
  · rw [if_neg hj,if_neg hj,chain]

@[simp] lemma live_push (h : (t.chain k).Before v) :
    (t.push k v r h).live j = if j = k then r else t.live j := by
  rw [live,chain_push h]
  split
  · exact Chain.newest_push ..
  · rfl

@[simp] lemma live_empty : (empty : VersionTable K V R).live k = none := rfl

lemma upTo_empty : (empty : VersionTable K V R).UpTo v := fun _ _ hx => absurd hx List.not_mem_nil

lemma UpTo.before (h : t.UpTo v) (hv : v < w) : (t.chain k).Before w := fun x hx => (h k x hx).trans_lt hv

lemma UpTo.mono (h : t.UpTo v) (hv : v ≤ w) : t.UpTo w := fun k x hx => (h k x hx).trans hv

lemma UpTo.push (ht : t.UpTo w) (hv : v ≤ w) (h : (t.chain k).Before v) : (t.push k v r h).UpTo w := by
  intro j x hx
  rw [chain_push h] at hx
  split at hx
  · obtain hx | hx := List.mem_append.mp hx
    · exact ht k x hx
    · rw [List.mem_singleton.mp hx]
      exact hv
  · exact ht j x hx

lemma mem_rows {x : R} : (k,x) ∈ t.rows ↔ t.live k = some x := by
  have hlive : t.live k = (Assoc.lookup k t.chains).bind Chain.newest := by
    rw [live,chain]
    cases Assoc.lookup k t.chains <;> rfl
  rw [hlive,Option.bind_eq_some_iff,rows,List.mem_filterMap]
  constructor
  · rintro ⟨e,he,hx⟩
    obtain ⟨r,hr,heq⟩ := Option.map_eq_some_iff.mp hx
    obtain ⟨rfl,rfl⟩ := Prod.mk.inj heq
    exact ⟨e.2,(Assoc.lookup_eq_some t.sorted).mpr he,hr⟩
  · rintro ⟨c,hc,hx⟩
    exact ⟨(k,c),Assoc.mem_of_lookup hc,by simp [hx]⟩

lemma sorted_rows : Assoc.Sorted t.rows := by
  refine List.pairwise_map.mpr (List.Pairwise.filterMap _ ?_ (List.pairwise_map.mp t.sorted))
  intro e e' hlt x hx y hy
  obtain ⟨r,-,rfl⟩ := Option.map_eq_some_iff.mp hx
  obtain ⟨r',-,rfl⟩ := Option.map_eq_some_iff.mp hy
  exact hlt

section Numbered
variable {id : R → K} (hk : ∀ {k x}, t.live k = some x → id x = k)
include hk

lemma mem_rows_snd (x : R) : x ∈ t.rows.map Prod.snd ↔ t.live (id x) = some x := by
  rw [List.mem_map]
  constructor
  · rintro ⟨⟨k,y⟩,hy,rfl⟩
    have hlive := mem_rows.mp hy
    rwa [hk hlive]
  · intro hx
    exact ⟨(id x,x),mem_rows.mpr hx,rfl⟩

lemma nodup_rows : ((t.rows.map Prod.snd).map id).Nodup := by
  have hkeys : (t.rows.map Prod.snd).map id = t.rows.map Prod.fst := by
    rw [List.map_map]
    refine List.map_congr_left fun e he => ?_
    exact hk (mem_rows.mp he)
  rw [hkeys]
  exact sorted_rows.imp ne_of_lt

end Numbered
end Lemmas
end VersionTable
end Plomvix.Lib
