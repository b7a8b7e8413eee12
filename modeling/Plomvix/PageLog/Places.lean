import Plomvix.PageLog.Durability
import Plomvix.Lib.Postings

/-! Where the records of a store are, and an index that is kept in step with them by appends without
a fault. -/
namespace Plomvix.PageLog
open Lib Pager RecordPage Prog

variable {α ι : Type}

def pagePlaces (c : Codec α) (id : ℕ) : ℕ → ℕ → List α → List (Place × α)
  | _,_,[] => []
  | off,n,a::l => (⟨id,off,n⟩,a)::pagePlaces c id (off+(c.encode a).length) (n+1) l

def places (c : Codec α) : ℕ → List (List α) → List (Place × α)
  | _,[] => []
  | id,l::ls => pagePlaces c id headerSize 0 l++places c (id+1) ls

section Places
variable {c : Codec α} {id off n : ℕ} {x : Place × α}

@[simp] lemma map_snd_pagePlaces (l : List α) : (pagePlaces c id off n l).map Prod.snd = l := by
  induction l generalizing off n with
  | nil => rfl
  | cons a l ih => rw [pagePlaces,List.map_cons,ih]

@[simp] lemma map_snd_places (ls : List (List α)) : (places c id ls).map Prod.snd = ls.flatten := by
  induction ls generalizing id with
  | nil => rfl
  | cons l ls ih => rw [places,List.map_append,map_snd_pagePlaces,ih,List.flatten_cons]

lemma pagePlaces_append (l l' : List α) : pagePlaces c id off n (l++l') =
    pagePlaces c id off n l++pagePlaces c id (off+(encodeAll c l).length) (n+l.length) l' := by
  induction l generalizing off n with
  | nil => rfl
  | cons a l ih =>
    rw [List.cons_append,pagePlaces,ih,pagePlaces,List.cons_append,encodeAll_cons,
      List.length_append,List.length_cons,Nat.add_assoc off,
      Nat.add_assoc n,Nat.add_comm 1]

lemma places_append (ls ls' : List (List α)) :
    places c id (ls++ls') = places c id ls++places c (id+ls.length) ls' := by
  induction ls generalizing id with
  | nil => rfl
  | cons l ls ih =>
    rw [List.cons_append,places,ih,places,List.append_assoc,List.length_cons,Nat.add_assoc,
      Nat.add_comm 1]

lemma places_singleton (l : List α) : places c id [l] = pagePlaces c id headerSize 0 l := List.append_nil _

lemma places_concat (before : List (List α)) (l l' : List α) : places c id (before++[l++l']) =
    places c id (before++[l])++pagePlaces c (id+before.length) (used c l) l.length l' := by
  rw [places_append,places_append,places_singleton,places_singleton,pagePlaces_append,
    List.append_assoc,Nat.zero_add,used]

end Places

def located (c : Codec α) (p : PageStore) : List (Place × α) :=
  places c firstDataPageID ((List.range' firstDataPageID (p.pageCount-firstDataPageID)).map
    fun id => decode c (p.body id))

lemma Holds.located_eq {k : Kind α ι} {p : PageStore} {contents : List (List α)} (h : Holds k p contents) :
    located k.codec p = places k.codec firstDataPageID contents := by
  rw [located,h.count,Nat.add_sub_cancel_left]
  congr 1
  refine List.ext_getElem (by simp) fun i _ hi => ?_
  rw [List.getElem_map,List.getElem_range',Nat.one_mul,(h.stored i _ (List.getElem?_eq_getElem hi)).decode]

/-- What an index says of the records; it may leave some out. -/
structure Keeps (k : Kind α ι) (J : List (Place × α) → ι → Prop) : Prop where
  more : ∀ ps x index, J ps index → J (ps++[x]) index
  insert : ∀ ps place a index index', J ps index → k.insert a place index = some index' →
    J (ps++[(place,a)]) index'

/-- An open store without faults. Records of appends that have panicked are in memory only. -/
structure Loaded (k : Kind α ι) (J : List (Place × α) → ι → Prop) (s : Store ι)
    (before : List (List α)) (l pending : List α) : Prop where
  quiet : s.script = []
  holds : Holds k s.pages (before++[l])
  id : s.currentPageID = firstDataPageID+before.length
  opened : s.opened = true
  fits : Fits k.codec dataPageBodySize (l++pending)
  body : s.currentBody = page k.codec dataPageBodySize (l++pending)
  index : J (places k.codec firstDataPageID (before++[l])) s.index

def Indexed (k : Kind α ι) (J : List (Place × α) → ι → Prop) (s : Store ι) : Prop :=
  ∃ before l pending, Loaded k J s before l pending

section Index
variable {k : Kind α ι}
  {J : List (Place × α) → ι → Prop} {s : Store ι} {before : List (List α)} {l l' pending : List α}
  {a : α}

lemma Keeps.append (hJ : Keeps k J) {ps : List (Place × α)} {index : ι} (h : J ps index)
    (qs : List (Place × α)) : J (ps++qs) index := by
  induction qs generalizing ps with
  | nil => rwa [List.append_nil]
  | cons x qs ih =>
    rw [← List.singleton_append,← List.append_assoc]
    exact ih (hJ.more ps x index h)

lemma flushPage_run (hquiet : s.script = []) (hholds : Holds k s.pages (before++[l]))
    (hid : s.currentPageID = firstDataPageID+before.length)
    (hbody : Stored k s.currentBody l') :
    ∃ p, flushPage s = (.ok (),{ s with pages := p }) ∧
      p.body (firstDataPageID+before.length) = s.currentBody ∧ Holds k p (before++[l']) := by
  obtain ⟨p,hwrite,hlast,hp⟩ := hholds.writePage (i := before.length) (by simp) hbody
  refine ⟨p,?_,hlast,by simpa using hp⟩
  rw [flushPage,bind_ok (get_run s)]
  exact call_of_quiet hquiet (hid ▸ hwrite)

lemma Loaded.flush (h : Loaded k J s before l pending) (hJ : Keeps k J) :
    ∃ p, flushPage s = (.ok (),{ s with pages := p }) ∧
      p.body (firstDataPageID+before.length) = s.currentBody ∧
      Loaded k J { s with pages := p } before (l++pending) [] := by
  obtain ⟨p,hflush,hlast,hp⟩ := flushPage_run h.quiet h.holds h.id (h.body ▸ stored_page h.fits)
  refine ⟨p,hflush,hlast,h.quiet,hp,h.id,h.opened,by simpa using h.fits,by simpa using h.body,?_⟩
  rw [places_concat]
  exact hJ.append h.index _

lemma makeRoom_indexed (h : Loaded k J s before l pending) (hJ : Keeps k J)
    (hsize : k.serializedSize a ≤ dataPageBodySize-headerSize) :
    Ends (makeRoom k a) s (fun at' s' => ∃ before' l' pending', Loaded k J s' before' l' pending' ∧
      at' = (num s'.currentBody,next s'.currentBody) ∧
        used k.codec (l'++pending'++[a]) ≤ dataPageBodySize ∧
      (before'++[l']).flatten++pending' = (before++[l]).flatten++pending)
      fun _ s' => Loaded k J s' before (l++pending) [] ∧ maxPages ≤ s.pages.pageCount := by
  refine .get_bind ?_
  have hnext := h.fits.next_page
  rw [← h.body] at hnext
  rw [k.serializedSize_eq] at hsize ⊢
  split_ifs with hfull
  · obtain ⟨p,hflush,-,hp⟩ := h.flush hJ
    rw [Ends,bind_ok hflush,← Ends]
    obtain ⟨p',halloc,hp'⟩ | ⟨halloc,hlong⟩ := hp.holds.allocatePage
    · rw [Ends,bind_ok (wrap_ok (call_of_quiet hp.quiet halloc)),← Ends]
      refine .modify_bind (.pure ⟨before++[l++pending],[],[],
        ⟨hp.quiet,hp',rfl,hp.opened,fits_nil,fresh_page,?_⟩,?_,?_,by simp⟩)
      · rw [places_append,places_singleton,pagePlaces,List.append_nil]
        exact hp.index
      · rw [fresh_page (k := k),fits_nil.num_page,fits_nil.next_page]
        rfl
      · rw [List.append_nil,used_concat]
        exact Nat.add_le_of_le_sub' (show headerSize ≤ dataPageBodySize by decide) hsize
    · refine .of_error (bind_error (handle_error (call_error_of_quiet hp.quiet halloc))) ⟨hp,?_⟩
      rw [hp.holds.count,List.length_append] at hlong
      rwa [h.holds.count,List.length_append]
  · refine .pure ⟨before,l,pending,h,rfl,?_,rfl⟩
    rw [used_concat,← hnext]
    omega

/-- An append keeps the index in step with the records, also where it panics; otherwise it writes
all records or none more, and that only if the record is too large or the file as long as it can
be. -/
theorem append_loaded (hJ : Keeps k J) (h : Loaded k J s before l pending) (a : α) :
    Ends (append k a) s (fun _ s' => ∃ before' l', Loaded k J s' before' l' [] ∧
      (before'++[l']).flatten = (before++[l]).flatten++pending++[a])
      fun _ s' => (∃ place index, k.insert a place index = none) ∧ Indexed k J s' ∨
        Loaded k J s' before l pending ∧ dataPageBodySize-headerSize < k.serializedSize a ∨
        Loaded k J s' before (l++pending) [] ∧ maxPages ≤ s.pages.pageCount := by
  refine .get_bind ?_
  rw [if_neg (not_not.mpr h.opened)]
  split_ifs with hlarge
  · exact .stop (.inr (.inl ⟨h,hlarge⟩))
  have hsize := not_lt.mp hlarge
  refine ((makeRoom_indexed h hJ hsize).mono (fun _ _ h => h) fun _ _ h =>
    .inr (.inr h)).bind fun at' s₁ hs₁ => ?_
  obtain ⟨before₁,l₁,pending₁,h,rfl,hroom,hflat⟩ := hs₁
  rw [← hflat]
  clear hflat
  have hbody : add k.codec a (num s₁.currentBody) (next s₁.currentBody) s₁.currentBody =
      page k.codec dataPageBodySize (l₁++pending₁++[a]) := by rw [h.body,h.fits.add_page hroom]
  have hfits := h.fits.concat (k.fits a hsize) hroom
  refine .bind (A := fun _ s₂ => ∃ index,
    k.insert a ⟨s₁.currentPageID,next s₁.currentBody,num s₁.currentBody⟩ s₁.index = some index ∧
    s₂ = { s₁ with
      currentBody := page k.codec dataPageBodySize (l₁++pending₁++[a]), index :=
      index }) (.modify_bind (.get_bind ?_)) ?_
  · split
    · -- the record stays in memory
      rename_i hinsert
      refine .stop (.inl ⟨⟨_,_,hinsert⟩,before₁,l₁,pending₁++[a],h.quiet,h.holds,h.id,h.opened,?_,
        ?_,h.index⟩)
      · rwa [← List.append_assoc]
      · rw [← List.append_assoc]
        exact hbody
    · rename_i index hinsert
      exact .modify ⟨index,hinsert,by rw [hbody]⟩
  · rintro _ _ ⟨index,hinsert,rfl⟩
    obtain ⟨p,hflush,-,hp⟩ := flushPage_run (s :=
      { s₁ with currentBody := page k.codec dataPageBodySize (l₁++pending₁++[a]), index := index })
      h.quiet h.holds h.id (stored_page hfits)
    refine .of_ok hflush ⟨before₁,l₁++pending₁++[a],
      ⟨h.quiet,hp,h.id,h.opened,by simpa using hfits,by simp,?_⟩,by simp⟩
    rw [h.id,h.body,h.fits.next_page,h.fits.num_page] at hinsert
    rw [places_concat,places_concat]
    exact hJ.insert _ _ a _ _ (hJ.append h.index _) hinsert

theorem append_indexed (hJ : Keeps k J) (h : Indexed k J s) (a : α) :
    Ends (append k a) s (fun _ s' => Indexed k J s') fun _ s' => Indexed k J s' := by
  obtain ⟨before,l,pending,h⟩ := h
  refine (append_loaded hJ h a).mono ?_ ?_
  · rintro _ s' ⟨before',l',h',-⟩
    exact ⟨before',l',[],h'⟩
  · rintro e s' (⟨-,h'⟩ | ⟨h',-⟩ | ⟨h',-⟩)
    · exact h'
    · exact ⟨before,l,pending,h'⟩
    · exact ⟨before,l++pending,[],h'⟩

lemma Indexed.has (h : Indexed k J s) : ∃ contents, Holds k s.pages contents ∧ s.opened = true ∧
      s.script = [] ∧ Has k s contents.flatten ∧
    J (places k.codec firstDataPageID contents) s.index := by
  obtain ⟨before,l,pending,h⟩ := h
  exact ⟨before++[l],h.holds,h.opened,h.quiet,⟨_,h.holds,rfl,fun _ => ⟨before,l,rfl,h.id⟩⟩,h.index⟩

/-- The store is closed and another one opened on the file, with its own index. -/
def reopen (k : Kind α ι) (index : ι) (s : Store ι) : Except Fail Unit × Store ι :=
  openStore k (newStoreWithIndex (close s).2.pages [] index)

lemma opened_loaded {index : ι} (hindex : ∀ ps, J ps index) :
    ∃ s, openStore k (newStoreWithIndex .empty [] index) = (.ok (),s) ∧ Loaded k J s [] [] [] := by
  obtain ⟨p,hload,hp⟩ :=
    loadPage_fresh (k := k) (s := newStoreWithIndex .empty [] index) ⟨rfl,rfl,rfl,by simp⟩ rfl
  exact ⟨_,openStore_of_load rfl rfl hload,rfl,hp,rfl,rfl,fits_nil,rfl,hindex _⟩

lemma opened_indexed {index : ι} (hindex : ∀ ps, J ps index)
    (hopen : openStore k (newStoreWithIndex .empty [] index) = (.ok (),s)) :
    Indexed k J s := by
  obtain ⟨s',hrun,hs'⟩ := opened_loaded (k := k) hindex
  cases hopen.symm.trans hrun
  exact ⟨[],[],[],hs'⟩

theorem reopen_loaded (hJ : Keeps k J) (h : Loaded k J s before l pending) {index : ι}
    (hindex : ∀ ps, J ps index) :
    ∃ s', reopen k index s = (.ok (),s') ∧ Loaded k J s' before (l++pending) [] := by
  obtain ⟨p,hflush,hlast,hp⟩ := h.flush hJ
  have hclosed : call (fun p => (.ok (),p)) { s with pages := p, opened := false } =
    (.ok (),{ s with pages := p, opened := false }) :=
    call_of_quiet h.quiet rfl
  have hclose : close s = (.ok (),{ s with pages := p, opened := false }) := by
    rw [close,bind_ok (get_run s),if_neg (not_not.mpr h.opened),bind_ok hflush,bind_ok (modify_run ..)]
    exact hclosed
  rw [reopen,hclose,openStore_of_load (s := newStoreWithIndex p [] index) rfl rfl
    (loadPage_last hp.holds rfl)]
  refine ⟨_,rfl,rfl,hp.holds,rfl,rfl,hp.fits,?_,hindex _⟩
  rw [List.append_nil]
  exact hlast.trans h.body

theorem reopen_indexed (hJ : Keeps k J) (h : Indexed k J s) {index : ι} (hindex : ∀ ps, J ps index)
    {s' : Store ι}
    (hopen : reopen k index s = (.ok (),s')) : Indexed k J s' := by
  obtain ⟨before,l,pending,h⟩ := h
  obtain ⟨s₁,hrun,hs₁⟩ := reopen_loaded hJ h hindex
  cases hopen.symm.trans hrun
  exact ⟨before,l++pending,[],hs₁⟩

end Index

end Plomvix.PageLog
