import Mathlib

/-! Finite maps as association lists with strictly ascending keys. -/
namespace Plomvix.Lib.Assoc
variable {K V W : Type} [LinearOrder K] {l a b : List (K × V)} {k : K}

/-- The keys ascend. -/
def Sorted (l : List (K × V)) : Prop := (l.map Prod.fst).Pairwise (· < ·)

def lookup (k : K) : List (K × V) → Option V
  | [] => none
  | e::l => if e.1 = k then some e.2 else lookup k l

/-- Insert at the key's place, replacing what is there. -/
def put (k : K) (v : V) : List (K × V) → List (K × V)
  | [] => [(k,v)]
  | e::l => if k < e.1 then (k,v)::e::l else if e.1 = k then (k,v)::l else e::put k v l

def erase (k : K) (l : List (K × V)) : List (K × V) := l.filter (fun e => e.1≠k)

lemma sorted_cons {e : K × V} :
    Sorted (e::l) ↔ (∀ x ∈ l, e.1 < x.1) ∧ Sorted l := by
  simp [Sorted]

lemma sorted_append :
    Sorted (a++b) ↔ Sorted a ∧ Sorted b ∧ ∀ x ∈ a, ∀ y ∈ b, x.1 < y.1 := by
  simp only [Sorted,List.map_append,List.pairwise_append,List.mem_map,forall_exists_index,and_imp,
    forall_apply_eq_imp_iff₂]

lemma find?_eq_lookup {p : K × V → Bool} (hp : ∀ e, p e = true ↔ e.1 = k)
    (l : List (K × V)) : (l.find? p).map Prod.snd = lookup k l := by
  induction l with
  | nil => rfl
  | cons e l ih =>
    rw [List.find?_cons,lookup]
    by_cases h : e.1 = k
    · rw [if_pos h,(hp e).mpr h]
      rfl
    · rw [if_neg h,Bool.eq_false_iff.mpr (mt (hp e).mp h)]
      exact ih

lemma lookup_none (h : ∀ e ∈ l, e.1≠k) : lookup k l = none := by
  induction l with
  | nil => rfl
  | cons e l ih =>
    rw [lookup,if_neg (h e (by simp)),ih (fun x hx => h x (by simp [hx]))]

lemma mem_of_lookup {v : V} (h : lookup k l = some v) : (k,v) ∈ l := by
  induction l with
  | nil => cases h
  | cons e l ih =>
    rw [lookup] at h
    split at h
    · rename_i he
      cases h
      simp [← he]
    · exact List.mem_cons_of_mem _ (ih h)

lemma lookup_eq_some {v : V} (hs : Sorted l) :
    lookup k l = some v ↔ (k,v) ∈ l := by
  refine ⟨mem_of_lookup,fun h => ?_⟩
  induction l with
  | nil => simp at h
  | cons e l ih =>
    obtain ⟨h1,h2⟩ := sorted_cons.mp hs
    rw [lookup]
    cases List.mem_cons.mp h with
    | inl he => rw [if_pos (by rw [← he]),← he]
    | inr hm => rw [if_neg (h1 _ hm).ne,ih h2 hm]

lemma lookup_append (k : K) (a b : List (K × V)) :
    lookup k (a++b) = (lookup k a).or (lookup k b) := by
  induction a with
  | nil => rfl
  | cons e a ih =>
    rw [List.cons_append,lookup,lookup,ih]
    split <;> rfl

lemma lookup_middle {a m b : List (K × V)} (ha : ∀ e ∈ a, e.1 < k) (hb : ∀ e ∈ b, k < e.1) :
    lookup k (a++m++b) = lookup k m := by
  rw [lookup_append,lookup_append,lookup_none (l := a) fun e he => (ha e he).ne,
    lookup_none (l := b) fun e he => (hb e he).ne']
  simp

lemma lookup_map (f : V → W) (k : K) (l : List (K × V)) :
    lookup k (l.map fun e => (e.1,f e.2)) = (lookup k l).map f := by
  induction l with
  | nil => rfl
  | cons e l ih =>
    rw [List.map_cons,lookup,lookup,ih]
    split <;> rfl

@[simp] lemma sorted_map (f : V → W) (l : List (K × V)) :
    Sorted (l.map fun e => (e.1,f e.2)) ↔ Sorted l := by
  simp [Sorted,Function.comp_def]

theorem lookup_put (k j : K) (v : V) (l : List (K × V)) :
    lookup j (put k v l) = if j = k then some v else lookup j l := by
  induction l with
  | nil => simp [put,lookup,eq_comm]
  | cons e l ih =>
    rw [put]
    split
    · simp [lookup,eq_comm]
    · split
      · rename_i he
        by_cases hj : j = k
        · simp [lookup,hj]
        · simp [lookup,hj,he,Ne.symm hj]
      · rename_i he
        by_cases hj : e.1 = j
        · subst hj
          simp [lookup,he]
        · simp [lookup,hj,ih]

lemma mem_put_self (k : K) (v : V) (l : List (K × V)) : (k,v) ∈ put k v l :=
  mem_of_lookup ((lookup_put k k v l).trans (if_pos rfl))

lemma mem_put {v : V} {e : K × V} (h : e ∈ put k v l) :
    e = (k,v) ∨ e ∈ l ∧ (Sorted l → e.1≠k) := by
  induction l with
  | nil => exact .inl (by simpa [put] using h)
  | cons x l ih =>
    rw [put] at h
    split at h
    · rename_i hk
      cases List.mem_cons.mp h with
      | inl he => exact .inl he
      | inr hm =>
        refine .inr ⟨hm,fun hs => ?_⟩
        cases List.mem_cons.mp hm with
        | inl he => exact he ▸ hk.ne'
        | inr hm => exact (hk.trans ((sorted_cons.mp hs).1 e hm)).ne'
    · split at h
      · rename_i he
        cases List.mem_cons.mp h with
        | inl he => exact .inl he
        | inr hm => exact .inr ⟨by simp [hm],fun hs => (he ▸ (sorted_cons.mp hs).1 e hm).ne'⟩
      · rename_i he
        cases List.mem_cons.mp h with
        | inl hx => exact .inr ⟨by simp [hx],fun _ => hx ▸ he⟩
        | inr hm =>
          refine (ih hm).imp id fun h => ⟨by simp [h.1],fun hs => h.2 (sorted_cons.mp hs).2⟩

theorem sorted_put (k : K) (v : V) (hs : Sorted l) : Sorted (put k v l) := by
  induction l with
  | nil => simp [put,Sorted]
  | cons e l ih =>
    obtain ⟨h1,h2⟩ := sorted_cons.mp hs
    rw [put]
    split
    · rename_i hk
      refine sorted_cons.mpr ⟨fun x hx => ?_,hs⟩
      cases List.mem_cons.mp hx with
      | inl he => exact he ▸ hk
      | inr hm => exact hk.trans (h1 x hm)
    · split
      · rename_i he
        exact sorted_cons.mpr ⟨fun x hx => he ▸ h1 x hx,h2⟩
      · rename_i hk he
        refine sorted_cons.mpr ⟨fun x hx => ?_,ih h2⟩
        cases mem_put hx with
        | inl hx => exact hx ▸ lt_of_le_of_ne (not_lt.mp hk) he
        | inr hx => exact h1 x hx.1

lemma put_skip {v : V} (ha : ∀ e ∈ a, e.1 < k) :
    put k v (a++b) = a++put k v b := by
  induction a with
  | nil => rfl
  | cons e a ih =>
    have he := ha e (by simp)
    rw [List.cons_append,put,if_neg he.not_gt,if_neg he.ne,ih (fun x hx => ha x (by simp [hx]))]
    rfl

lemma put_stop {v : V} {m b : List (K × V)} (hb : ∀ e ∈ b, k < e.1) :
    put k v (m++b) = put k v m++b := by
  induction m with
  | nil =>
    cases b with
    | nil => rfl
    | cons e b => simp [put,hb e (by simp)]
  | cons e m ih =>
    rw [List.cons_append,put,put,ih]
    split
    · rfl
    · split <;> rfl

theorem put_middle {v : V} {a m b : List (K × V)} (ha : ∀ e ∈ a, e.1 < k)
    (hb : ∀ e ∈ b, k < e.1) : put k v (a++m++b) = a++put k v m++b := by
  rw [put_stop hb,put_skip ha]

lemma put_here {v w : V} (ha : ∀ e ∈ a, e.1 < k) :
    put k v (a++(k,w)::b) = a++(k,v)::b := by
  rw [put_skip ha]
  simp [put]

lemma put_new {v : V} (ha : ∀ e ∈ a, e.1 < k) (hb : ∀ e ∈ b, k < e.1) :
    put k v (a++b) = a++(k,v)::b := by
  have h := put_middle (m := []) (v := v) ha hb
  rwa [List.append_nil,put,List.append_assoc,List.singleton_append] at h

lemma put_map (f : V → W) (k : K) (v : V) (l : List (K × V)) :
    put k (f v) (l.map fun e => (e.1,f e.2)) = (put k v l).map fun e => (e.1,f e.2) := by
  induction l with
  | nil => rfl
  | cons e l ih =>
    simp only [List.map_cons,put,ih]
    split
    · rfl
    · split <;> rfl

lemma length_put_new {v : V} (h : ∀ e ∈ l, e.1≠k) :
    (put k v l).length = l.length+1 := by
  induction l with
  | nil => rfl
  | cons e l ih =>
    rw [put]
    split
    · rfl
    · rw [if_neg (h e (by simp)),List.length_cons,ih fun x hx => h x (by simp [hx])]
      rfl

lemma length_put_here {v : V} (hs : Sorted l) (h : ∃ e ∈ l, e.1 = k) :
    (put k v l).length = l.length := by
  induction l with
  | nil => simp at h
  | cons x l ih =>
    obtain ⟨h1,h2⟩ := sorted_cons.mp hs
    obtain ⟨e,he,hk⟩ := h
    rw [put]
    cases List.mem_cons.mp he with
    | inl he =>
      subst he
      rw [if_neg (by simp [hk]),if_pos hk]
      rfl
    | inr hm =>
      have hlt : x.1 < k := hk ▸ h1 e hm
      rw [if_neg hlt.le.not_gt,if_neg hlt.ne,List.length_cons,ih h2 ⟨e,hm,hk⟩]
      rfl

lemma mem_erase {e : K × V} : e ∈ erase k l ↔ e ∈ l ∧ e.1≠k := by
  simp [erase]

lemma erase_append (k : K) (a b : List (K × V)) : erase k (a++b) = erase k a++erase k b :=
  List.filter_append ..

lemma erase_of_absent (h : ∀ e ∈ l, e.1≠k) : erase k l = l :=
  List.filter_eq_self.mpr (by simpa using h)

lemma erase_map (f : V → W) (k : K) (l : List (K × V)) :
    erase k (l.map fun e => (e.1,f e.2)) = (erase k l).map fun e => (e.1,f e.2) := by
  rw [erase,List.filter_map]
  rfl

lemma erase_here {w : V} (ha : ∀ e ∈ a, e.1≠k) (hb : ∀ e ∈ b, e.1≠k) :
    erase k (a++(k,w)::b) = a++b := by
  have hx : erase k ((k,w)::b) = erase k b := List.filter_cons_of_neg (by simp)
  rw [erase_append,hx,erase_of_absent ha,erase_of_absent hb]

theorem sorted_erase (k : K) (hs : Sorted l) : Sorted (erase k l) :=
  hs.sublist (List.filter_sublist.map _)

theorem lookup_erase (k j : K) (l : List (K × V)) :
    lookup j (erase k l) = if j = k then none else lookup j l := by
  induction l with
  | nil => simp [erase,lookup]
  | cons e l ih =>
    rw [erase] at ih ⊢
    rw [List.filter_cons]
    by_cases hk : e.1 = k
    · rw [if_neg (by simpa using hk),ih,lookup,hk]
      by_cases hj : j = k
      · simp [hj]
      · simp [hj,Ne.symm hj]
    · rw [if_pos (by simpa using hk),lookup,ih,lookup]
      by_cases hj : e.1 = j
      · subst hj
        simp [hk]
      · simp [hj]

lemma mem_put_iff {v : V} (hs : Sorted l) {j : K} {w : V} :
    (j,w) ∈ put k v l ↔ j = k ∧ w = v ∨ (j,w) ∈ l ∧ j≠k := by
  rw [← lookup_eq_some (sorted_put k v hs),lookup_put,← lookup_eq_some hs]
  by_cases h : j = k
  · simp [h,eq_comm]
  · simp [h]

lemma Sorted.eq_of_key (hs : Sorted l) {x y : K × V} (hx : x ∈ l) (hy : y ∈ l) (h : x.1 = y.1) :
    x = y := by
  have h1 := (lookup_eq_some hs).mpr hx
  rw [h,(lookup_eq_some hs).mpr hy] at h1
  exact Prod.ext h (Option.some.inj h1).symm

theorem Sorted.ext {l l' : List (K × V)} (hs : Sorted l) (hs' : Sorted l')
    (h : ∀ e, e ∈ l ↔ e ∈ l') : l = l' := by
  have hirr : Std.Irrefl (fun a b : K × V => a.1 < b.1) := ⟨fun a => lt_irrefl a.1⟩
  have hanti : Std.Antisymm (fun a b : K × V => a.1 < b.1) := ⟨fun a b h h' => absurd h h'.asymm⟩
  exact List.Pairwise.eq_of_mem_iff (List.pairwise_map.mp hs) (List.pairwise_map.mp hs') h

/-- A sorted list seen from a key: what is below it, the key itself if present, what is above. -/
theorem split_at (k : K) (hs : Sorted l) :
    ∃ a b, (∀ e ∈ a, e.1 < k) ∧ (∀ e ∈ b, k < e.1) ∧ (l = a++b ∨ ∃ w, l = a++(k,w)::b) := by
  induction l with
  | nil => exact ⟨[],[],by simp,by simp,.inl rfl⟩
  | cons e l ih =>
    obtain ⟨h1,h2⟩ := sorted_cons.mp hs
    obtain h | h | h := lt_trichotomy e.1 k
    · obtain ⟨a,b,ha,hb,hl⟩ := ih h2
      refine ⟨e::a,b,?_,hb,?_⟩
      · intro x hx
        cases List.mem_cons.mp hx with
        | inl he => exact he ▸ h
        | inr hm => exact ha x hm
      · exact hl.imp (congrArg (e::·)) fun ⟨w,hw⟩ => ⟨w,congrArg (e::·) hw⟩
    · exact ⟨[],l,by simp,fun x hx => h ▸ h1 x hx,.inr ⟨e.2,by simp [← h]⟩⟩
    · refine ⟨[],e::l,by simp,fun x hx => ?_,.inl rfl⟩
      cases List.mem_cons.mp hx with
      | inl he => exact he ▸ h
      | inr hm => exact h.trans (h1 x hm)

section Position
variable {p : K → Bool}
omit [LinearOrder K]

lemma findIdx?_keys_none (hp : ∀ x, p x = true ↔ x = k) (h : ∀ e ∈ l, e.1≠k) :
    (l.map Prod.fst).findIdx? p = none := by
  rw [List.findIdx?_eq_none_iff]
  intro x hx
  obtain ⟨e,he,rfl⟩ := List.mem_map.mp hx
  exact Bool.eq_false_iff.mpr fun hx => h e he ((hp e.1).mp hx)

lemma findIdx?_keys_here (hp : ∀ x, p x = true ↔ x = k) {w : V}
    (ha : ∀ e ∈ a, e.1≠k) : ((a++(k,w)::b).map Prod.fst).findIdx? p = some a.length := by
  rw [List.map_append,List.findIdx?_append,findIdx?_keys_none hp ha,List.map_cons,List.findIdx?_cons,
    (hp k).mpr rfl]
  simp

lemma takeWhile_keys (ha : ∀ e ∈ a, p e.1 = true) (hb : ∀ e ∈ b, p e.1 = false) :
    (((a++b).map Prod.fst).takeWhile p).length = a.length := by
  rw [List.map_append,List.takeWhile_append_of_pos (by simpa using fun x y h => ha (x,y) h)]
  cases b with
  | nil => simp
  | cons e b => simp [hb e (by simp)]

end Position

section AgreeOn
variable {P : K → Prop} {l' : List (K × V)}

/-- Two maps have the same entries where `P` holds of the key. -/
structure AgreeOn (P : K → Prop) (l l' : List (K × V)) : Prop where
  sorted : Sorted l
  sorted' : Sorted l'
  same : ∀ {e : K × V}, P e.1 → (e ∈ l ↔ e ∈ l')

lemma AgreeOn.refl (hs : Sorted l) : AgreeOn P l l := ⟨hs,hs,fun _ => Iff.rfl⟩

lemma AgreeOn.put (h : AgreeOn P l l') (k : K) (v : V) : AgreeOn P (put k v l) (put k v l') where
  sorted := sorted_put k v h.sorted
  sorted' := sorted_put k v h.sorted'
  same {e} he := by
    obtain ⟨j,w⟩ := e
    rw [mem_put_iff h.sorted,mem_put_iff h.sorted',h.same he]

lemma AgreeOn.put_left (h : AgreeOn P l l') (hk : ¬P k) (v : V) : AgreeOn P (Assoc.put k v l) l' where
  sorted := sorted_put k v h.sorted
  sorted' := h.sorted'
  same {e} he := by
    obtain ⟨j,w⟩ := e
    have hne : j≠k := fun h => hk (h ▸ he)
    rw [mem_put_iff h.sorted,h.same he]
    simp [hne]

theorem AgreeOn.filterMap (h : AgreeOn P l l') {f : K × V → Option W} (hf : ∀ e, ¬P e.1 → f e = none) :
    l.filterMap f = l'.filterMap f := by
  classical
  have hown : ∀ l : List (K × V), (l.filter (fun e => P e.1)).filterMap f = l.filterMap f := by
    intro l
    rw [List.filterMap_filter]
    refine List.filterMap_congr fun e _ => ?_
    by_cases he : P e.1
    · rw [if_pos (decide_eq_true he)]
    · rw [hf e he,ite_self]
  have hsub : ∀ {l : List (K × V)}, Sorted l → Sorted (l.filter (fun e => P e.1)) := fun hs =>
    hs.sublist (List.filter_sublist.map _)
  rw [← hown l,← hown l']
  congr 1
  refine (hsub h.sorted).ext (hsub h.sorted') fun e => ?_
  rw [List.mem_filter,List.mem_filter,decide_eq_true_eq]
  exact and_congr_left h.same

end AgreeOn

end Plomvix.Lib.Assoc
