import Mathlib

/-! Posting lists: parts of one ordered list, kept in its order. Their intersection by a merge,
reading them page by page, and when the entries found are the ones sought. -/
namespace Plomvix.Lib.Postings
variable {α β γ κ : Type}

/-- The merge of two lists; an entry that neither precedes nor follows another is the same. -/
def inter (lt : α → α → Bool) : List α → List α → List α
  | [],_ => []
  | a::as,bs => interOne lt a (inter lt as) bs
where
  interOne (lt : α → α → Bool) (a : α) (rest : List α → List α) : List α → List α
    | [] => []
    | b::bs => if lt a b then rest (b::bs) else if lt b a then interOne lt a rest bs else a::rest bs

section Inter
variable {lt : α → α → Bool}

lemma inter_nil (as : List α) : inter lt as [] = [] := by cases as <;> rfl

lemma inter_cons_left {a : α} {bs : List α} (h : ∀ b ∈ bs, lt a b = true) (as : List α) :
    inter lt (a::as) bs = inter lt as bs := by
  cases bs with
  | nil => rw [inter_nil,inter_nil]
  | cons b bs => rw [inter,inter.interOne,if_pos (h b (List.mem_cons_self ..))]

lemma inter_cons_right {b : α} {as : List α} (h : ∀ a ∈ as, lt a b = false ∧ lt b a = true) (bs : List α) :
    inter lt as (b::bs) = inter lt as bs := by
  cases as with
  | nil => rfl
  | cons a as =>
    obtain ⟨hab,hba⟩ := h a (List.mem_cons_self ..)
    rw [inter,inter.interOne,if_neg (by simp [hab]),if_pos hba,inter]

theorem inter_filter (hasymm : ∀ a b, lt a b = true → lt b a = false) {l : List α}
    (hl : l.Pairwise fun a b => lt a b = true) (p q : α → Bool) :
    inter lt (l.filter p) (l.filter q) = l.filter fun a => p a && q a := by
  induction l with
  | nil => rfl
  | cons a l ih =>
    obtain ⟨ha,hl⟩ := List.pairwise_cons.mp hl
    have ha' : ∀ r : α → Bool, ∀ b ∈ l.filter r, lt a b = true :=
      fun r b hb => ha b (List.mem_of_mem_filter hb)
    have hself : lt a a = false := by
      by_contra h
      rw [Bool.not_eq_false] at h
      exact absurd h (by simp [hasymm a a h])
    by_cases hp : p a = true
    · by_cases hq : q a = true
      · rw [List.filter_cons_of_pos hp,List.filter_cons_of_pos hq,
          List.filter_cons_of_pos (by simp [hp,hq]),← ih hl,inter,inter.interOne,
          if_neg (by simp [hself]),if_neg (by simp [hself])]
      · rw [List.filter_cons_of_pos hp,List.filter_cons_of_neg hq,
          List.filter_cons_of_neg (by simp [hq]),← ih hl,inter_cons_left (ha' q)]
    · by_cases hq : q a = true
      · rw [List.filter_cons_of_neg hp,List.filter_cons_of_pos hq,
          List.filter_cons_of_neg (by simp [hp]),← ih hl,
          inter_cons_right fun b hb => ⟨hasymm a b (ha' p b hb),ha' p b hb⟩]
      · rw [List.filter_cons_of_neg hp,List.filter_cons_of_neg hq,
          List.filter_cons_of_neg (by simp [hq]),← ih hl]

end Inter

lemma eq_filter_of_sublist [DecidableEq α] {l' l : List α} (h : l'.Sublist l) (hl : l.Nodup) :
    l' = l.filter (· ∈ l') := by
  induction h with
  | slnil => rfl
  | @cons l₁ l₂ a h ih =>
    obtain ⟨ha,hl⟩ := List.nodup_cons.mp hl
    rw [List.filter_cons_of_neg (by simpa using fun hmem => ha (h.subset hmem)),← ih hl]
  | @cons_cons l₁ l₂ a h ih =>
    obtain ⟨ha,hl⟩ := List.nodup_cons.mp hl
    rw [List.filter_cons_of_pos (by simp)]
    congr 1
    refine (ih hl).trans (List.filter_congr fun b hb => ?_)
    have hne : b≠a := fun heq => ha (heq ▸ hb)
    simp [hne]

lemma perm_map_filter_iff [DecidableEq γ] (f : α → γ) (g : β → γ) (p : α → Bool) (q : β → Bool)
    (l : List α) (l' : List β) :
    ((l.filter p).map f).Perm ((l'.filter q).map g) ↔
      ∀ c, l.countP (fun a => decide (f a = c) && p a) = l'.countP fun b => decide (g b = c) && q b := by
  simp only [List.perm_iff_count,List.count_eq_countP,List.countP_map,List.countP_filter,
    Function.comp_def,beq_eq_decide]

theorem perm_filter_iff [DecidableEq β] (f : α → β) (p : α → Bool) (q : β → Bool) (l : List α) :
    ((l.filter p).map f).Perm ((l.map f).filter q) ↔ ∀ a ∈ l, p a = q (f a) := by
  rw [List.filter_map]
  constructor
  · intro h a ha
    have hcount : l.countP (fun b => decide (f b = f a) && p b) = l.countP fun b =>
      decide (f b = f a) && q (f b) :=
      (perm_map_filter_iff f f p (q ∘ f) l l).mp h (f a)
    by_cases hq : q (f a) = true
    · -- all entries with this value are sought, so all of them are found
      have hsought : l.countP (fun b => decide (f b = f a) && q (f b)) = l.countP fun b =>
        decide (f b = f a) := by
        refine List.countP_congr fun b _ => ?_
        by_cases hb : f b = f a <;> simp [hb,hq]
      simp only [Bool.and_comm (decide _) (p _)] at hcount
      rw [hsought,← List.countP_filter,List.countP_eq_length_filter (p := fun b =>
        decide (f b = f a)),List.countP_eq_length] at hcount
      rw [hq]
      exact hcount a (List.mem_filter.mpr ⟨ha,decide_eq_true rfl⟩)
    · have hsought : l.countP (fun b => decide (f b = f a) && q (f b)) = 0 := by
        refine List.countP_eq_zero.mpr fun b _ => ?_
        by_cases hb : f b = f a <;> simp [hb,hq]
      rw [hsought,List.countP_eq_zero] at hcount
      have ha' := hcount a ha
      simp at ha' hq
      rw [ha',hq]
  · intro h
    rw [List.filter_congr h]
    rfl

end Plomvix.Lib.Postings
