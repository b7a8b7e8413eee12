import Plomvix.Lib.Assoc

/-! Multi-version values. A chain lists the versions of one value in increasing order, each with
what was written or a tombstone; a reader at a version sees the latest one up to it. -/
namespace Plomvix.Lib

section Latest
variable {V D E : Type} [LinearOrder V]

/-- The entry with the greatest version up to `tx`. -/
def latestOf (tx : V) (l : List (V × D)) : Option (V × D) := (l.filter (·.1 ≤ tx)).getLast?

lemma head?_insertionSort {l : List (V × D)} (hs : Assoc.Sorted l) :
    (l.insertionSort fun a b => b.1 ≤ a.1).head? = l.getLast? := by
  have htotal : Std.Total (fun a b : V × D => b.1 ≤ a.1) := ⟨fun a b => le_total b.1 a.1⟩
  have htrans : IsTrans (V × D) (fun a b => b.1 ≤ a.1) := ⟨fun a b c h h' => h'.trans h⟩
  have hdown : l.reverse.Pairwise fun a b => b.1 ≤ a.1 :=
    List.pairwise_reverse.mpr ((List.pairwise_map.mp hs).imp fun h => h.le)
  have hsort : l.insertionSort (fun a b => b.1 ≤ a.1) = l.reverse := by
    refine List.Perm.eq_of_pairwise (fun a b ha hb h h' => ?_) (List.pairwise_insertionSort _ l) hdown
      ((List.perm_insertionSort _ l).trans (List.reverse_perm l).symm)
    exact hs.eq_of_key ((List.mem_insertionSort _).mp ha) (List.mem_reverse.mp hb) (le_antisymm h' h)
  rw [hsort,List.head?_reverse]

lemma latestOf_map (f : D → E) (tx : V) (l : List (V × D)) :
    latestOf tx (l.map fun x => (x.1,f x.2)) = (latestOf tx l).map fun x => (x.1,f x.2) := by
  rw [latestOf,List.filter_map,List.getLast?_map]
  rfl

lemma latestOf_eq_some {tx : V} {l : List (V × D)} (hs : Assoc.Sorted l) {x : V × D} :
    latestOf tx l = some x ↔ x ∈ l ∧ x.1 ≤ tx ∧ ∀ y ∈ l, y.1 ≤ tx → y.1 ≤ x.1 := by
  have hmem : ∀ y, y ∈ l.filter (·.1 ≤ tx) ↔ y ∈ l ∧ y.1 ≤ tx := by simp
  have htop : ∀ y, latestOf tx l = some y → (y ∈ l ∧ y.1 ≤ tx) ∧ ∀ z ∈ l, z.1 ≤ tx → z.1 ≤ y.1 := by
    intro y hy
    obtain ⟨front,hf⟩ := List.getLast?_eq_some_iff.mp hy
    have hsf : Assoc.Sorted (l.filter (·.1 ≤ tx)) := hs.sublist (List.filter_sublist.map _)
    rw [hf] at hsf hmem
    refine ⟨(hmem y).mp (by simp),fun z hz hzt => ?_⟩
    obtain hz | hz := List.mem_append.mp ((hmem z).mpr ⟨hz,hzt⟩)
    · exact ((Assoc.sorted_append.mp hsf).2.2 z hz y (List.mem_singleton_self y)).le
    · exact (congrArg Prod.fst (List.mem_singleton.mp hz)).le
  constructor
  · intro h
    obtain ⟨⟨hx,hxt⟩,hmax⟩ := htop x h
    exact ⟨hx,hxt,hmax⟩
  · rintro ⟨hx,hxt,hmax⟩
    cases hl : latestOf tx l with
    | none => exact absurd ((hmem x).mpr ⟨hx,hxt⟩) (by rw [List.getLast?_eq_none_iff.mp hl]; simp)
    | some y =>
      obtain ⟨⟨hy,hyt⟩,hmax'⟩ := htop y hl
      rw [hs.eq_of_key hx hy (le_antisymm (hmax' x hx hxt) (hmax y hy hyt))]

lemma latestOf_eq_none {tx : V} {l : List (V × D)} : latestOf tx l = none ↔ ∀ x ∈ l, tx < x.1 := by
  simp [latestOf]

lemma latestOf_all {tx : V} {l : List (V × D)} (h : ∀ x ∈ l, x.1 ≤ tx) : latestOf tx l = l.getLast? := by
  rw [latestOf,List.filter_eq_self.mpr (by simpa using h)]

lemma latestOf_put_later {tx v : V} (h : tx < v) (d : D) (l : List (V × D)) :
    latestOf tx (Assoc.put v d l) = latestOf tx l := by
  suffices hf : (Assoc.put v d l).filter (·.1 ≤ tx) = l.filter (·.1 ≤ tx) by rw [latestOf,hf,latestOf]
  induction l with
  | nil => simp [Assoc.put,not_le.mpr h]
  | cons e l ih =>
    rw [Assoc.put]
    split
    · simp [not_le.mpr h]
    · split
      · rename_i he
        simp [he,not_le.mpr h]
      · rw [List.filter_cons,List.filter_cons,ih]

lemma latestOf_of_covered {tx : V} {l l' : List (V × D)} (hs : Assoc.Sorted l)
    (hs' : Assoc.Sorted l') (hsub : l' ⊆ l)
    (hcover : ∀ x ∈ l, x ∉ l' → ∃ h ∈ l', x.1 < h.1 ∧ h.1 ≤ tx) : latestOf tx l' = latestOf tx l := by
  cases hl : latestOf tx l with
  | none => exact latestOf_eq_none.mpr fun x hx => latestOf_eq_none.mp hl x (hsub hx)
  | some x =>
    obtain ⟨hx,hxt,hmax⟩ := (latestOf_eq_some hs).mp hl
    have hx' : x ∈ l' := by
      by_contra hn
      obtain ⟨h,hh,hlt,hht⟩ := hcover x hx hn
      exact absurd (hmax h (hsub hh) hht) (not_le.mpr hlt)
    exact (latestOf_eq_some hs').mpr ⟨hx',hxt,fun y hy => hmax y (hsub hy)⟩

end Latest

/-- The versions of one key, oldest first. -/
structure Chain (V R : Type) [LinearOrder V] where
  versions : List (V × Option R)
  increasing : Assoc.Sorted versions

namespace Chain
variable {V R : Type} [LinearOrder V]

def empty : Chain V R := ⟨[],List.Pairwise.nil⟩

def Before (c : Chain V R) (v : V) : Prop := ∀ x ∈ c.versions, x.1 < v

def push (c : Chain V R) (v : V) (r : Option R) (h : c.Before v) : Chain V R where
  versions := c.versions++[(v,r)]
  increasing := Assoc.sorted_append.mpr ⟨c.increasing,by simp [Assoc.Sorted],fun x hx y hy => by
    rw [List.mem_singleton.mp hy]
    exact h x hx⟩

def visible (tx : V) (c : Chain V R) : Option R := (latestOf tx c.versions).bind Prod.snd

end Chain
end Plomvix.Lib
