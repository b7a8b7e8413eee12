import Mathlib

/-! Slices. Sorting by a comparison that can fail: an element goes back over the elements that it is less
than; over a total preorder this is the stable sort. Binary search for the place where a predicate begins
to hold, and the different elements of a slice, each where it is first met. -/
namespace Plomvix.Lib
variable {α ε : Type}

section Slice
variable (less : α → α → Except ε Bool)

/-- `x` goes back over a slice, given from its end. -/
def insertBack (x : α) : List α → Except ε (List α)
  | [] => .ok [x]
  | y::ys => do
    if ← less x y then return y::(← insertBack x ys) else return x::y::ys

def sliceStableFrom : List α → List α → Except ε (List α)
  | sorted,[] => .ok sorted.reverse
  | sorted,x::l => do sliceStableFrom (← insertBack less x sorted) l

def sliceStable (l : List α) : Except ε (List α) := sliceStableFrom less [] l

end Slice

section Orders
variable {le le' : α → α → Prop} [DecidableRel le] [DecidableRel le'] {l : List α}

lemma orderedInsert_congr {x : α} (h : ∀ y ∈ l, le x y ↔ le' x y) :
    l.orderedInsert le x = l.orderedInsert le' x := by
  induction l with
  | nil => rfl
  | cons b l ih =>
    rw [List.orderedInsert_cons,List.orderedInsert_cons,ih fun y hy => h y (List.mem_cons_of_mem _ hy)]
    simp only [h b (List.mem_cons_self ..)]

lemma le_of_insertionSort_eq [IsTrans α le] [Std.Total le] [IsTrans α le'] [Std.Total le'] {x y : α}
    (h : l.insertionSort le = l.insertionSort le') (hxy : [x,y].Sublist l) (hle : le x y) : le' x y := by
  have hsub : [x,y].Sublist (l.insertionSort le') := h ▸ List.pair_sublist_insertionSort hle hxy
  exact List.pairwise_iff_forall_sublist.mp (List.pairwise_insertionSort le' l) hsub

/-- The stable sorts by two orders agree exactly if the orders say the same of an earlier and a
later element. -/
theorem insertionSort_eq_iff [IsTrans α le] [Std.Total le] [IsTrans α le'] [Std.Total le'] :
    l.insertionSort le = l.insertionSort le' ↔ l.Pairwise fun x y => le x y ↔ le' x y := by
  constructor
  · intro h
    rw [List.pairwise_iff_forall_sublist]
    exact fun hxy => ⟨le_of_insertionSort_eq h hxy,le_of_insertionSort_eq h.symm hxy⟩
  · intro h
    induction h with
    | nil => rfl
    | @cons x l hx _ ih =>
      rw [List.insertionSort_cons,List.insertionSort_cons,ih]
      exact orderedInsert_congr fun y hy => hx y ((List.mem_insertionSort le').mp hy)

lemma exists_rank (le : α → α → Prop) [DecidableRel le] [IsTrans α le] [Std.Total le] (l : List α) :
    ∃ rank : α → ℕ, ∀ x ∈ l, ∀ y ∈ l, rank x ≤ rank y ↔ le x y := by
  have hmono : ∀ x y, le x y → (l.filter fun w => ¬ le x w).Sublist (l.filter fun w => ¬ le y w) := by
    intro x y hxy
    refine List.monotone_filter_right l fun w hw => ?_
    simp only [decide_eq_true_eq] at hw ⊢
    exact fun hyw => hw (IsTrans.trans _ _ _ hxy hyw)
  refine ⟨fun x => (l.filter fun w => ¬ le x w).length,fun x hx y hy =>
    ⟨fun h => ?_,fun h => (hmono x y h).length_le⟩⟩
  by_contra hxy
  have hyx : le y x := (Std.Total.total x y).resolve_left hxy
  have hmem : y ∈ l.filter fun w => ¬ le x w := List.mem_filter.mpr ⟨hy,by simpa using hxy⟩
  rw [← (hmono y x hyx).eq_of_length_le h] at hmem
  have hyy : le y y := (Std.Total.total y y).elim id id
  exact absurd hyy (by simpa using (List.mem_filter.mp hmem).2)

end Orders

section Contract

def Compares (less : α → α → Except ε Bool) (le : α → α → Prop) [DecidableRel le] (x y : α) : Prop :=
  less x y = .ok (decide (¬ le y x)) ∧ less y x = .ok (decide (¬ le x y))

/-- What a stable sort promises: if any two elements of the slice are compared by one total
preorder, they come out in that order, equal ones as they stood. Of other comparisons it promises
nothing. -/
structure Sorter (α ε : Type) where
  sort : (α → α → Except ε Bool) → List α → Except ε (List α)
  sorted : ∀ {less : α → α → Except ε Bool} {l : List α} (le : α → α →
    Prop) [DecidableRel le] [IsTrans α le] [Std.Total le],
    l.Pairwise (Compares less le) → sort less l = .ok (l.insertionSort le)

variable {less : α → α → Except ε Bool} {l : List α}

lemma Compares.agree {le le' : α → α → Prop} [DecidableRel le] [DecidableRel le'] {x y : α}
    (h : Compares less le x y)
    (h' : Compares less le' x y) : le x y ↔ le' x y := by
  simpa using h.2.symm.trans h'.2

def RankLe (rank : α → ℕ) (x y : α) : Prop := rank x ≤ rank y

instance (rank : α → ℕ) : DecidableRel (RankLe rank) :=
  fun x y => inferInstanceAs (Decidable (rank x ≤ rank y))
instance (rank : α → ℕ) : IsTrans α (RankLe rank) := ⟨fun _ _ _ => Nat.le_trans⟩
instance (rank : α → ℕ) : Std.Total (RankLe rank) := ⟨fun x y => Nat.le_total (rank x) (rank y)⟩

lemma Compares.ranked {le : α → α → Prop} [DecidableRel le] [IsTrans α le] [Std.Total le]
    (h : l.Pairwise (Compares less le)) :
    ∃ rank : α → ℕ, l.Pairwise (Compares less (RankLe rank)) := by
  obtain ⟨rank,hrank⟩ := exists_rank le l
  refine ⟨rank,h.imp_of_mem fun {x y} hx hy hxy => ?_⟩
  simpa only [Compares,RankLe,hrank x hx y hy,hrank y hy x hx] using hxy

open Classical in
/-- A sorter that does no more than it promises. -/
noncomputable def strictSorter (e : ε) : Sorter α ε where
  sort less l := if h : ∃ rank : α → ℕ, l.Pairwise (Compares less (RankLe rank)) then
    .ok (l.insertionSort (RankLe h.choose)) else .error e
  sorted := by
    intro less l le _ _ _ hle
    have h := Compares.ranked hle
    rw [dif_pos h]
    exact congrArg Except.ok (insertionSort_eq_iff.mpr (h.choose_spec.and hle |>.imp fun hxy =>
      hxy.1.agree hxy.2))

/-- Whatever sorts the slice, it comes out in an order exactly if the elements are compared by a
ranking, and this puts a later element below an earlier one exactly where the order does. -/
theorem sorts_iff [Inhabited ε] {spec : α → α → Prop} [DecidableRel spec] [IsTrans α spec]
    [Std.Total spec] :
    (∀ sorter : Sorter α ε, sorter.sort less l = .ok (l.insertionSort spec)) ↔
      ∃ rank : α → ℕ, l.Pairwise (Compares less (RankLe rank)) ∧
        l.Pairwise fun x y => rank x ≤ rank y ↔ spec x y := by
  constructor
  · intro h
    have hstrict := h (strictSorter default)
    simp only [strictSorter] at hstrict
    split_ifs at hstrict with hrank
    exact ⟨hrank.choose,hrank.choose_spec,insertionSort_eq_iff.mp (Except.ok.inj hstrict)⟩
  · rintro ⟨rank,hrank,hspec⟩ sorter
    rw [sorter.sorted (RankLe rank) hrank]
    exact congrArg Except.ok (insertionSort_eq_iff.mpr hspec)

end Contract

section Insertion
variable {less : α → α → Except ε Bool} {le : α → α → Prop} [DecidableRel le]

/-- `x` comes to stand after the elements that are not above it. -/
def insertAfter (le : α → α → Prop) [DecidableRel le] (x : α) : List α → List α
  | [] => [x]
  | y::ys => if le y x then y::insertAfter le x ys else x::y::ys

lemma insertAfter_append {x y : α} {l : List α} (h : ∀ z ∈ l, le z y) [IsTrans α le] :
    insertAfter le x (l++[y]) = if le y x then l++[y,x] else insertAfter le x l++[y] := by
  induction l with
  | nil => rfl
  | cons z zs ih =>
    obtain ⟨hz,hzs⟩ := List.forall_mem_cons.mp h
    rw [List.cons_append,insertAfter,ih hzs,insertAfter]
    by_cases hyx : le y x
    · simp [hyx,IsTrans.trans _ _ _ hz hyx]
    · by_cases hzx : le z x <;> simp [hyx,hzx]

/-- Going back from the end of a sorted slice, `x` comes to the same place. -/
lemma insertBack_reverse [IsTrans α le] {x : α} {l : List α} (hl : l.Pairwise le)
    (hless : ∀ y ∈ l, less x y = .ok (decide (¬ le y x))) :
    insertBack less x l.reverse = .ok (insertAfter le x l).reverse := by
  induction l using List.reverseRecOn with
  | nil => rfl
  | append_singleton l y ih =>
    obtain ⟨hl,-,hly⟩ := List.pairwise_append.mp hl
    have hbelow : ∀ z ∈ l, le z y := fun z hz => hly z hz y (List.mem_singleton.mpr rfl)
    rw [List.reverse_append,List.reverse_singleton,List.singleton_append,insertBack,
      hless y (by simp),insertAfter_append hbelow]
    by_cases hyx : le y x
    · simp [hyx,bind,Except.bind,pure,Except.pure]
    · simp [hyx,bind,Except.bind,pure,Except.pure,
        ih hl fun z hz => hless z (List.mem_append_left _ hz)]

/-- It does not matter whether the earlier `a` or the later `x` is put in first. -/
lemma orderedInsert_insertAfter [IsTrans α le] [Std.Total le] (a x : α) (l : List α) :
    (insertAfter le x l).orderedInsert le a = insertAfter le x (l.orderedInsert le a) := by
  induction l with
  | nil => by_cases hax : le a x <;> simp [insertAfter,hax]
  | cons y ys ih =>
    rw [insertAfter,List.orderedInsert_cons]
    by_cases hyx : le y x
    · by_cases hay : le a y
      · simp [insertAfter,hyx,hay,IsTrans.trans _ _ _ hay hyx]
      · simp [insertAfter,hyx,hay,ih]
    · by_cases hay : le a y
      · by_cases hax : le a x <;> simp [insertAfter,hyx,hay,hax]
      · have hya : le y a := (Std.Total.total y a).resolve_right hay
        have hax : ¬ le a x := fun hax => hyx (IsTrans.trans _ _ _ hya hax)
        simp [insertAfter,hyx,hay,hax]

lemma insertionSort_append [IsTrans α le] [Std.Total le] (x : α) (l : List α) :
    (l++[x]).insertionSort le = insertAfter le x (l.insertionSort le) := by
  induction l with
  | nil => rfl
  | cons a l ih =>
    rw [List.cons_append,List.insertionSort_cons,ih,List.insertionSort_cons,
      orderedInsert_insertAfter]

lemma sliceStableFrom_eq [IsTrans α le] [Std.Total le] (done rest : List α)
    (h : (done++rest).Pairwise (Compares less le)) :
    sliceStableFrom less (done.insertionSort le).reverse rest =
      .ok ((done++rest).insertionSort le) := by
  induction rest generalizing done with
  | nil => simp [sliceStableFrom]
  | cons x rest ih =>
    have hless : ∀ y ∈ done.insertionSort le, less x y = .ok (decide (¬ le y x)) := fun y hy => by
      have hy := (List.mem_insertionSort le).mp hy
      exact ((List.pairwise_append.mp h).2.2 y hy x (List.mem_cons_self ..)).2
    rw [sliceStableFrom,insertBack_reverse (List.pairwise_insertionSort le done) hless,
      ← insertionSort_append]
    have happend : done++x::rest = (done++[x])++rest := by simp
    rw [happend] at h ⊢
    exact ih (done++[x]) h

/-- The insertion from the end is a stable sort. -/
def stableSorter (α ε : Type) : Sorter α ε where
  sort := sliceStable
  sorted _ _ _ _ h := sliceStableFrom_eq [] _ h

end Insertion

section Search

def searchLoop (f : ℕ → Bool) (i j : ℕ) : ℕ :=
  if i < j then
    if f ((i+j)/2) then searchLoop f i ((i+j)/2) else searchLoop f ((i+j)/2+1) j
  else i
termination_by j-i

def binarySearch (n : ℕ) (f : ℕ → Bool) : ℕ := searchLoop f 0 n

/-- `f` does not hold below the place, and holds from it on. -/
structure Begins (n : ℕ) (f : ℕ → Bool) (place : ℕ) : Prop where
  le : place ≤ n
  below : ∀ a < place, f a = false
  above : ∀ a, place ≤ a → a < n → f a = true

variable {n : ℕ} {f : ℕ → Bool}

lemma begins_searchLoop (hmono : ∀ a b, a ≤ b → b < n → f a = true → f b = true) (i j : ℕ)
    (hij : i ≤ j) (hj : j ≤ n)
    (hbelow : ∀ a < i, f a = false) (habove : ∀ a, j ≤ a → a < n → f a = true) :
    Begins n f (searchLoop f i j) := by
  fun_induction searchLoop f i j with
  | case1 i j hlt hm ih =>
    refine ih (by omega) (by omega) hbelow fun a ha hn => ?_
    exact hmono _ a ha hn hm
  | case2 i j hlt hm ih =>
    refine ih (by omega) hj (fun a ha => ?_) habove
    by_contra h
    exact hm (hmono a _ (by omega) (by omega) (Bool.eq_true_of_not_eq_false h))
  | case3 i j hge =>
    obtain rfl : i = j := by omega
    exact ⟨hj,hbelow,habove⟩

theorem begins_binarySearch (hmono : ∀ a b, a ≤ b → b < n → f a = true → f b = true) :
    Begins n f (binarySearch n f) :=
  begins_searchLoop hmono 0 n (Nat.zero_le n) le_rfl (by simp) fun a ha hn => absurd hn (by omega)

end Search

section Firsts
variable [DecidableEq α]

def firsts (l : List α) : List α := l.reverse.dedup.reverse

@[simp] lemma firsts_nil : firsts ([] : List α) = [] := rfl

lemma firsts_snoc (l : List α) (x : α) : firsts (l++[x]) = if x ∈ l then firsts l else firsts l++[x] := by
  rw [firsts,List.reverse_append,List.reverse_singleton,List.singleton_append]
  split_ifs with h
  · rw [List.dedup_cons_of_mem (List.mem_reverse.mpr h),firsts]
  · rw [List.dedup_cons_of_notMem (mt List.mem_reverse.mp h),List.reverse_cons,firsts]

@[simp] lemma mem_firsts {l : List α} {x : α} : x ∈ firsts l ↔ x ∈ l := by simp [firsts]

lemma firsts_eq_nil {l : List α} : firsts l = [] ↔ l = [] := by simp [List.eq_nil_iff_forall_not_mem]

lemma firsts_of_const {l : List α} {a : α} (hl : l≠[]) (h : ∀ x ∈ l, x = a) : firsts l = [a] := by
  induction l using List.reverseRecOn with
  | nil => exact absurd rfl hl
  | append_singleton l x ih =>
    obtain rfl : x = a := h x (by simp)
    rw [firsts_snoc]
    split_ifs with hx
    · exact ih (List.ne_nil_of_mem hx) fun y hy => h y (by simp [hy])
    · have hnil : l = [] := List.eq_nil_iff_forall_not_mem.mpr fun y hy => hx (h y (by simp [hy]) ▸ hy)
      simp [hnil]

end Firsts

end Plomvix.Lib
