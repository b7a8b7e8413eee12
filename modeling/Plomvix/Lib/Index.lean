import Mathlib.Data.List.Nodup
import Mathlib.Logic.Function.Basic

/-! Rows by number, with what finds the same rows by another key: an index, where the keys are different,
groups, where rows share a key, and the inverse of a map. -/
namespace Plomvix.Lib
variable {N I R : Type}

def Indexes (index : N → Option R) (rows : I → Option R) (name : R → N) (id : R → I) : Prop :=
  ∀ n r, index n = some r ↔ rows (id r) = some r ∧ name r = n

namespace Indexes
variable {index : N → Option R} {rows : I → Option R} {name : R → N} {id : R → I} {r : R} {n : N}

lemma unique (h : Indexes index rows name id) {r' : R} (hr : rows (id r) = some r)
    (hr' : rows (id r') = some r')
    (he : name r = name r') : r = r' := by
  have h1 := (h (name r) r).mpr ⟨hr,rfl⟩
  have h2 := (h (name r) r').mpr ⟨hr',he.symm⟩
  exact Option.some.inj (h1.symm.trans h2)

lemma eq {index' : N → Option R} (h : Indexes index rows name id)
    (h' : Indexes index' rows name id) : index = index' := by
  funext n
  apply Option.ext
  intro r
  exact (h n r).trans (h' n r).symm

lemma eq_rows {index : I → Option R} (h : Indexes index rows id id)
    (hk : ∀ {i r}, rows i = some r → id r = i) : index = rows := by
  funext i
  apply Option.ext
  intro r
  rw [h i r]
  constructor
  · rintro ⟨hr,rfl⟩
    exact hr
  · intro hr
    obtain rfl := hk hr
    exact ⟨hr,rfl⟩

lemma name_inj (h : Indexes index rows name id) {r' : R} {n' : N} (hr : index n = some r)
    (hr' : index n' = some r')
    (he : id r = id r') : n = n' := by
  obtain ⟨hrow,rfl⟩ := (h n r).mp hr
  obtain ⟨hrow',rfl⟩ := (h n' r').mp hr'
  rw [he,hrow'] at hrow
  rw [Option.some.inj hrow]

theorem insert [DecidableEq N] [DecidableEq I] (h : Indexes index rows name id)
    (hn : index (name r) = none) (hi : rows (id r) = none) :
    Indexes (Function.update index (name r) (some r)) (Function.update rows (id r) (some r)) name id := by
  intro n x
  rw [Function.update_apply,Function.update_apply]
  by_cases hid : id x = id r
  · rw [if_pos hid,Option.some.injEq]
    by_cases hname : n = name r
    · rw [if_pos hname,Option.some.injEq]
      exact ⟨fun hx => ⟨hx,hx ▸ hname.symm⟩,And.left⟩
    · rw [if_neg hname]
      constructor
      · intro hx
        have := ((h n x).mp hx).1
        rw [hid,hi] at this
        cases this
      · rintro ⟨rfl,hx⟩
        exact absurd hx.symm hname
  · rw [if_neg hid]
    by_cases hname : n = name r
    · rw [if_pos hname,Option.some.injEq]
      constructor
      · rintro rfl
        exact absurd rfl hid
      · intro hx
        have := (h n x).mpr hx
        rw [hname,hn] at this
        cases this
    · rw [if_neg hname]
      exact h n x

theorem filter (h : Indexes index rows name id) (p : R → Bool) :
    Indexes (fun n => (index n).filter p) (fun i => (rows i).filter p) name id := by
  intro n x
  simp only [Option.filter_eq_some_iff]
  rw [h n x,and_right_comm]

theorem erase [DecidableEq N] [DecidableEq I] (h : Indexes index rows name id) (hr : index n = some r) :
    Indexes (Function.update index n none) (Function.update rows (id r) none) name id := by
  obtain ⟨hrow,hname⟩ := (h n r).mp hr
  intro m x
  rw [Function.update_apply,Function.update_apply]
  by_cases hid : id x = id r
  · rw [if_pos hid]
    by_cases hm : m = n
    · simp [hm]
    · rw [if_neg hm]
      refine ⟨fun hx => ?_,fun hx => nomatch hx.1⟩
      obtain ⟨hxrow,hxname⟩ := (h m x).mp hx
      rw [hid,hrow,Option.some.injEq] at hxrow
      exact absurd (hxname.symm.trans (hxrow ▸ hname)) hm
  · rw [if_neg hid]
    by_cases hm : m = n
    · rw [if_pos hm]
      refine ⟨fun hx => (nomatch hx),fun hx => ?_⟩
      have := (h m x).mpr hx
      rw [hm,hr,Option.some.injEq] at this
      exact absurd (this ▸ rfl) hid
    · rw [if_neg hm]
      exact h m x

end Indexes

lemma erased_eq_filter [DecidableEq I] {rows : I → Option R} {ids : List I} {p : R → Bool}
    (h : ∀ i r, rows i = some r → (i ∈ ids ↔ p r = false)) :
    (fun i => if i ∈ ids then none else rows i) = fun i => (rows i).filter p := by
  funext i
  cases hr : rows i with
  | none => simp
  | some r =>
    by_cases hi : i ∈ ids
    · rw [if_pos hi,Option.filter_some,(h i r hr).mp hi]
      rfl
    · rw [if_neg hi,Option.filter_some,if_pos (Bool.not_eq_false _ ▸ fun hp => hi ((h i r hr).mpr hp))]

/-- The groups have exactly the rows that are there, each under its own name. -/
def Groups (groups : N → List R) (rows : I → Option R) (name : R → N) (id : R → I) : Prop :=
  ∀ n r, r ∈ groups n ↔ rows (id r) = some r ∧ name r = n

namespace Groups
variable {groups : N → List R} {rows : I → Option R} {name : R → N} {id : R → I} {r : R} {n : N}

theorem insert [DecidableEq N] [DecidableEq I] (h : Groups groups rows name id) (hi : rows (id r) = none) :
    Groups (Function.update groups (name r) (groups (name r)++[r]))
      (Function.update rows (id r) (some r)) name id := by
  intro n x
  have hgroup : x ∈ Function.update groups (name r) (groups (name r)++[r]) n ↔ x ∈ groups n ∨
    x = r ∧ name x = n := by
    rw [Function.update_apply]
    by_cases hn : n = name r
    · rw [if_pos hn,List.mem_append,List.mem_singleton,hn]
      exact or_congr Iff.rfl ⟨fun hx => ⟨hx,hx ▸ rfl⟩,And.left⟩
    · rw [if_neg hn]
      exact ⟨.inl,fun hx => hx.resolve_right fun he => hn (he.1 ▸ he.2.symm)⟩
  rw [hgroup,h n x,Function.update_apply,← or_and_right]
  refine and_congr_left' ?_
  by_cases hid : id x = id r
  · rw [if_pos hid,hid,hi,Option.some.injEq]
    exact ⟨fun hx => (hx.resolve_left nofun).symm,fun hx => .inr hx.symm⟩
  · rw [if_neg hid]
    exact ⟨fun hx => hx.resolve_right fun he => hid (he ▸ rfl),.inl⟩

theorem erase [DecidableEq N] [DecidableEq I] (h : Groups groups rows name id)
    (hr : rows (id r) = some r) :
    Groups (Function.update groups (name r) ((groups (name r)).filter (id ·≠id r)))
      (Function.update rows (id r) none) name id := by
  intro n x
  have hgroup : x ∈ Function.update groups (name r) ((groups (name r)).filter (id ·≠id r)) n ↔
    x ∈ groups n ∧ id x≠id r := by
    rw [Function.update_apply]
    by_cases hn : n = name r
    · simp [hn]
    · rw [if_neg hn]
      refine ⟨fun hx => ⟨hx,fun hid => ?_⟩,And.left⟩
      obtain ⟨hrow,hname⟩ := (h n x).mp hx
      rw [hid,hr,Option.some.injEq] at hrow
      exact hn (hname.symm.trans (hrow ▸ rfl))
  rw [hgroup,h n x,Function.update_apply]
  by_cases hid : id x = id r
  · simp [hid]
  · rw [if_neg hid]
    exact ⟨And.left,fun hx => ⟨hx,hid⟩⟩

theorem clear [DecidableEq N] (h : Groups groups rows name id) :
    Groups (Function.update groups n []) (fun i => (rows i).filter (name ·≠n)) name id := by
  intro m x
  rw [Function.update_apply]
  simp only [Option.filter_eq_some_iff,decide_eq_true_eq]
  by_cases hm : m = n
  · rw [if_pos hm]
    exact ⟨nofun,fun hx => absurd (hx.2.trans hm) hx.1.2⟩
  · rw [if_neg hm,h m x]
    exact ⟨fun hx => ⟨⟨hx.1,fun he => hm (hx.2.symm.trans he)⟩,hx.2⟩,fun hx => ⟨hx.1.1,hx.2⟩⟩

end Groups

def Inverse (f : N → Option I) (g : I → Option N) : Prop := ∀ n i, f n = some i ↔ g i = some n

namespace Inverse
variable {f : N → Option I} {g : I → Option N} {n : N} {i : I}

theorem insert [DecidableEq N] [DecidableEq I] (h : Inverse f g) (hf : f n = none) (hg : g i = none) :
    Inverse (Function.update f n (some i)) (Function.update g i (some n)) := by
  intro m j
  rw [Function.update_apply,Function.update_apply]
  by_cases hm : m = n
  · by_cases hj : j = i
    · simp [hm,hj]
    · rw [if_pos hm,if_neg hj,hm,Option.some.injEq]
      refine ⟨fun he => absurd he.symm hj,fun hx => ?_⟩
      rw [← h n j,hf] at hx
      cases hx
  · by_cases hj : j = i
    · rw [if_neg hm,if_pos hj,hj,Option.some.injEq]
      refine ⟨fun hx => ?_,fun he => absurd he.symm hm⟩
      rw [h m i,hg] at hx
      cases hx
    · rw [if_neg hm,if_neg hj]
      exact h m j

theorem erase [DecidableEq N] [DecidableEq I] (h : Inverse f g) (hn : f n = some i) :
    Inverse (Function.update f n none) (Function.update g i none) := by
  intro m j
  rw [Function.update_apply,Function.update_apply]
  by_cases hm : m = n
  · by_cases hj : j = i
    · simp [hm,hj]
    · rw [if_pos hm,if_neg hj,hm]
      refine ⟨nofun,fun hx => ?_⟩
      rw [← h n j,hn,Option.some.injEq] at hx
      exact absurd hx.symm hj
  · by_cases hj : j = i
    · rw [if_neg hm,if_pos hj,hj]
      refine ⟨fun hx => ?_,nofun⟩
      rw [h m i,(h n i).mp hn,Option.some.injEq] at hx
      exact absurd hx.symm hm
    · rw [if_neg hm,if_neg hj]
      exact h m j

theorem filter (h : Inverse f g) (p : N → Bool) :
    Inverse (fun n => if p n then f n else none) fun i => (g i).filter p := by
  intro m j
  simp only [Option.filter_eq_some_iff,← h m j]
  by_cases hp : p m = true <;> simp [hp]

end Inverse

section Load
variable [DecidableEq N] {V : Type} {l : List R} {name : R → N} {id : R → I}
  {rows : I → Option R} {n : N} {r : R}

lemma foldl_update {value : R → V} {m : N → Option V} {x : V} (hnodup : (l.map name).Nodup)
    (hm : ∀ r ∈ l, m (name r) = none) :
    l.foldl (fun m r => Function.update m (name r) (some (value r))) m n = some x ↔
      m n = some x ∨ ∃ r ∈ l, name r = n ∧ value r = x := by
  induction l generalizing m with
  | nil => simp
  | cons r l ih =>
    obtain ⟨hr,hnodup⟩ := List.nodup_cons.mp hnodup
    have hrest : ∀ y ∈ l, Function.update m (name r) (some (value r)) (name y) = none := by
      intro y hy
      rw [Function.update_of_ne fun he => hr (List.mem_map.mpr ⟨y,hy,he⟩)]
      exact hm y (List.mem_cons_of_mem _ hy)
    rw [List.foldl_cons,ih hnodup hrest,Function.update_apply]
    by_cases hn : n = name r
    · have hnone : m n = none := hn ▸ hm r (List.mem_cons_self ..)
      rw [if_pos hn,hnone]
      simp [hn]
    · simp [hn,Ne.symm hn]

theorem indexes_foldl (hl : ∀ r, r ∈ l ↔ rows (id r) = some r) (hid : (l.map id).Nodup)
    (hname : ∀ r r', rows (id r) = some r → rows (id r') = some r' → name r = name r' → r = r') :
    Indexes (l.foldl (fun m r => Function.update m (name r) (some r)) fun _ => none) rows name id := by
  have hnodup : (l.map name).Nodup := by
    refine List.Nodup.map_on (fun r hr r' hr' =>
      hname r r' ((hl r).mp hr) ((hl r').mp hr')) (List.Nodup.of_map id hid)
  intro n r
  rw [foldl_update hnodup fun _ _ => rfl]
  simp only [reduceCtorEq,false_or,← hl]
  constructor
  · rintro ⟨r,hr,hn,rfl⟩
    exact ⟨hr,hn⟩
  · rintro ⟨hr,hn⟩
    exact ⟨r,hr,hn,rfl⟩

lemma foldl_append {value : R → V} {m : N → List V} :
    l.foldl (fun m r => Function.update m (name r) (m (name r)++[value r])) m n =
      m n++(l.filter (name ·=n)).map value := by
  induction l generalizing m with
  | nil => simp
  | cons r l ih =>
    rw [List.foldl_cons,ih,Function.update_apply]
    by_cases hn : n = name r
    · simp [hn]
    · simp [hn,Ne.symm hn]

end Load
end Plomvix.Lib
