import Plomvix.PageLog.Store
import Plomvix.Lib.Machine

/-! Which records a store has after appends whose pager calls may fail and a process that may end
between any two of them. -/
namespace Plomvix.PageLog
open Lib Pager RecordPage Prog

variable {α β ι : Type} {k : Kind α ι} {s : Store ι} {p : PageStore} {l : List α}
  {contents : List (List α)} {m : List α} {a : α}

/-- The body of a page with these records; a page that was only allocated has none. -/
structure Stored (k : Kind α ι) (body : Bytes) (l : List α) : Prop where
  fits : Fits k.codec dataPageBodySize l
  body_eq : body = page k.codec dataPageBodySize l ∨ l = [] ∧ body = zeroBody

/-- The records of each page. -/
structure Holds (k : Kind α ι) (p : PageStore) (contents : List (List α)) : Prop where
  txn : p.txn = none
  free : p.freeList = []
  count : p.pageCount = firstDataPageID+contents.length
  stored : ∀ i l, contents[i]? = some l → Stored k (p.body (firstDataPageID+i)) l

lemma Stored.decode (h : Stored k body l) : decode k.codec body = l := by
  obtain hbody | ⟨rfl,hbody⟩ := h.body_eq
  · rw [hbody,h.fits.decode_page]
  · rw [hbody,zeroBody,decode_zeros]

lemma Stored.length (h : Stored k body l) : body.length = dataPageBodySize := by
  obtain hbody | ⟨-,hbody⟩ := h.body_eq
  · rw [hbody,page_length h.fits.room]
  · rw [hbody,zeroBody,List.length_replicate]

lemma fits_nil : Fits k.codec dataPageBodySize [] :=
  ⟨by simp,show headerSize ≤ dataPageBodySize by decide,by decide⟩

lemma stored_zeroBody : Stored k zeroBody [] := ⟨fits_nil,.inr ⟨rfl,rfl⟩⟩

lemma stored_page (h : Fits k.codec dataPageBodySize l) :
    Stored k (page k.codec dataPageBodySize l) l := ⟨h,.inl rfl⟩

namespace Holds
variable {i : ℕ}

lemma live (h : Holds k p contents) (hi : i < contents.length) : p.Live (firstDataPageID+i) := by
  refine ⟨Nat.le_add_right ..,?_,by simp [h.free]⟩
  rw [h.count]
  omega

lemma view (h : Holds k p contents) (id : ℕ) : p.view id = p.body id := by simp [PageStore.view,h.txn]

lemma readPage (h : Holds k p contents) (hi : i < contents.length) :
    p.readPage (firstDataPageID+i) = (.ok (p.body (firstDataPageID+i)),p) := by
  rw [PageStore.readPage,if_pos (h.live hi),h.view]

lemma writePage (h : Holds k p contents) (hi : i < contents.length) (hs : Stored k body l) :
    ∃ p', p.writePage (firstDataPageID+i) body = (.ok (),p') ∧ p'.body (firstDataPageID+i) = body ∧
      Holds k p' (contents.set i l) := by
  refine ⟨{ p with body := Function.update p.body (firstDataPageID+i) body },?_,
    Function.update_self ..,h.txn,h.free,?_,fun j l' hj => ?_⟩
  · rw [PageStore.writePage,if_neg (not_not.mpr (h.live hi)),if_neg (not_not.mpr hs.length),h.txn]
  · rw [List.length_set]
    exact h.count
  · rw [List.getElem?_set] at hj
    split_ifs at hj with hij
    · cases hj
      rw [← hij]
      simpa using hs
    · have hne : firstDataPageID+j≠firstDataPageID+i := by omega
      simpa [Function.update_of_ne hne] using h.stored j l' hj

lemma allocatePage (h : Holds k p contents) :
    (∃ p', p.allocatePage = (.ok (firstDataPageID+contents.length),p') ∧ Holds k p' (contents++[[]])) ∨
      p.allocatePage = (.error .io,p) ∧ maxPages ≤ p.pageCount := by
  rw [PageStore.allocatePage,if_neg (by simp [h.txn]),h.free]
  simp only
  split_ifs with hroom
  · refine .inl ⟨⟨p.pageCount+1,[],Function.update p.body p.pageCount zeroBody,p.txn⟩,
      by rw [← h.count],h.txn,rfl,?_,fun j l' hj => ?_⟩
    · rw [List.length_append,List.length_singleton,← Nat.add_assoc]
      exact congrArg (·+1) h.count
    · obtain hlt | hge := lt_or_ge j contents.length
      · rw [List.getElem?_append_left hlt] at hj
        have hne : firstDataPageID+j≠p.pageCount := by
          rw [h.count]
          omega
        simpa [Function.update_of_ne hne] using h.stored j l' hj
      · rw [List.getElem?_append_right hge,List.getElem?_singleton] at hj
        split_ifs at hj with hzero
        cases hj
        have heq : firstDataPageID+j = p.pageCount := by
          rw [h.count]
          omega
        simpa [heq] using stored_zeroBody
  · exact .inr ⟨rfl,not_lt.mp hroom⟩

end Holds

/-- The pages hold these records one after another, and an open store writes to the last page. -/
structure Has (k : Kind α ι) (s : Store ι) (m : List α) : Prop where
  pages : ∃ contents, Holds k s.pages contents ∧ contents.flatten = m ∧
    (s.opened = true → ∃ before l, contents = before++[l] ∧
      s.currentPageID = firstDataPageID+before.length)

def Clean (s : Store ι) : Prop := s.currentBody = s.pages.body s.currentPageID ∧
      headerSize ≤ next s.currentBody

/-- An open store whose page in memory has the records `l`. -/
structure Ready (k : Kind α ι) (s : Store ι) (m : List α) (before : List (List α)) (l : List α) :
    Prop where
  holds : Holds k s.pages (before++[l])
  flatten : (before++[l]).flatten = m
  id : s.currentPageID = firstDataPageID+before.length
  opened : s.opened = true
  body : s.currentBody = page k.codec dataPageBodySize l

section Calls
variable {before : List (List α)} {l' : List α}

lemma Has.of_ready (h : Ready k s m before l) {s' : Store ι} (hpages : s'.pages = s.pages)
    (hid : s'.currentPageID = s.currentPageID) :
    Has k s' m := ⟨before++[l],hpages ▸ h.holds,h.flatten,fun _ => ⟨before,l,rfl,hid.trans h.id⟩⟩

lemma Ready.fits (h : Ready k s m before l) : Fits k.codec dataPageBodySize l :=
  (h.holds.stored before.length l (by simp)).fits

lemma Has.ready (h : Has k s m) (hopen : s.opened = true) (hclean : Clean s) :
    ∃ before l, Ready k s m before l := by
  obtain ⟨contents,hholds,hm,hlast⟩ := h.pages
  obtain ⟨before,l,rfl,hid⟩ := hlast hopen
  have hstored := hholds.stored before.length l (by simp)
  refine ⟨before,l,hholds,hm,hid,hopen,?_⟩
  rw [hclean.1,hid]
  obtain hbody | ⟨-,hbody⟩ := hstored.body_eq
  · exact hbody
  · -- a page without a header is ruled out
    have hnext := hclean.2
    rw [hclean.1,hid,hbody] at hnext
    exact absurd hnext (by decide +kernel)

lemma call_ends {op : PageStore → Except Pager.Err β × PageStore} {A : β → Store ι → Prop}
    {B : Fail → Store ι → Prop}
    (hfail : ∀ e, B e s.next)
    (hop : match op s.pages with
      | (.ok b,p) => A b { s.next with pages := p }
      | (.error e,p) => B (.err (.pager e)) { s.next with pages := p }) : Ends (call op) s A B := by
  cases hscript : s.script.headD .ok with
  | crash => exact .of_error (by rw [call,hscript]) (hfail _)
  | fail => exact .of_error (by rw [call,hscript]) (hfail _)
  | ok =>
    rcases hrun : op s.pages with ⟨e | b,p⟩
    · rw [hrun] at hop
      exact .of_error (by rw [call,hscript,hrun]; rfl) hop
    · rw [hrun] at hop
      exact .of_ok (by rw [call,hscript,hrun]; rfl) hop

lemma wrap_ends {text : String} {ids : List ℕ} {x : Cmd ι β} {A : β → Store ι → Prop} {B : Store ι → Prop}
    (h : Ends x s A fun _ => B) : Ends (wrap text ids x) s A fun _ => B := by
  refine h.handle fun e s' hs' => ?_
  cases e <;> exact .stop hs'

lemma flushPage_ends (hholds : Holds k s.pages (before++[l]))
    (hid : s.currentPageID = firstDataPageID+before.length)
    (hbody : Stored k s.currentBody l') :
    Ends flushPage s (fun _ s' => ∃ p, s' = { s.next with pages := p } ∧
      Holds k p (before++[l'])) fun _ s' => s' = s.next := by
  refine .get_bind (call_ends (fun _ => rfl) ?_)
  obtain ⟨p,hwrite,-,hp⟩ := hholds.writePage (i := before.length) (by simp) hbody
  simp only [hid,hwrite]
  exact ⟨p,rfl,by simpa using hp⟩

lemma allocatePage_ends {text : String} (hholds : Holds k s.pages contents) :
    Ends (wrap text [] (call (·.allocatePage))) s (fun id s' => id = firstDataPageID+contents.length ∧
      ∃ p, s' = { s.next with pages := p } ∧ Holds k p (contents++[[]])) fun _ s' => s' = s.next := by
  refine wrap_ends (call_ends (fun _ => rfl) ?_)
  obtain ⟨p,halloc,hp⟩ | ⟨halloc,-⟩ := hholds.allocatePage
  · rw [halloc]
    exact ⟨rfl,p,rfl,hp⟩
  · rw [halloc]
    rfl

lemma fresh_page : writeHeader 0 headerSize zeroBody = page k.codec dataPageBodySize [] :=
  writeHeader_zeros (by decide)

lemma makeRoom_ends (h : Ready k s m before l) (hsize : k.serializedSize a ≤ dataPageBodySize-headerSize) :
    Ends (makeRoom k a) s (fun at' s' => ∃ before l, Ready k s' m before l ∧
      at' = (num s'.currentBody,next s'.currentBody) ∧
      used k.codec (l++[a]) ≤ dataPageBodySize) fun _ s' => Has k s' m := by
  refine .get_bind ?_
  have hnext := h.fits.next_page
  rw [← h.body] at hnext
  rw [k.serializedSize_eq] at hsize ⊢
  split_ifs with hfull
  · have hflush := flushPage_ends h.holds h.id (h.body ▸ stored_page h.fits)
    refine (hflush.mono (fun _ _ hs => hs) fun _ s₁ hs₁ => ?_).bind fun _ s₁ hs₁ => ?_
    · rw [hs₁]
      exact .of_ready h rfl rfl
    obtain ⟨p₁,rfl,hp₁⟩ := hs₁
    refine ((allocatePage_ends hp₁).mono (fun _ _ hs => hs) fun _ s₂ hs₂ => ?_).bind fun id s₂ hs₂ => ?_
    · rw [hs₂]
      exact ⟨before++[l],hp₁,h.flatten,fun _ => ⟨before,l,rfl,h.id⟩⟩
    obtain ⟨rfl,p₂,rfl,hp₂⟩ := hs₂
    refine .modify_bind (.pure ⟨before++[l],[],⟨hp₂,?_,rfl,h.opened,fresh_page⟩,?_,?_⟩)
    · simpa using h.flatten
    · rw [fresh_page (k := k),fits_nil.num_page,fits_nil.next_page]
      rfl
    · rw [used_concat]
      exact Nat.add_le_of_le_sub' (show headerSize ≤ dataPageBodySize by decide) hsize
  · refine .pure ⟨before,l,h,rfl,?_⟩
    rw [used_concat,← hnext]
    omega

lemma putRecord_ends (h : Ready k s m before l) (hroom : used k.codec (l++[a]) ≤ dataPageBodySize) :
    Ends (putRecord k a (num s.currentBody,next s.currentBody)) s
      (fun _ s' => s'.pages = s.pages ∧ s'.currentPageID = s.currentPageID ∧ s'.opened = true ∧
        s'.currentBody = page k.codec dataPageBodySize (l++[a])) fun _ s' => Has k s' m := by
  have hbody : add k.codec a (num s.currentBody) (next s.currentBody) s.currentBody =
    page k.codec dataPageBodySize (l++[a]) := by
    rw [h.body,h.fits.add_page hroom]
  refine .modify_bind (.get_bind ?_)
  split
  · exact .stop (.of_ready h rfl rfl)
  · exact .modify ⟨rfl,rfl,h.opened,hbody⟩

/-- An append that returns has added its record, and one that does not has added none to the pages. -/
theorem append_ends (h : Has k s m) (hclean : s.opened = true → Clean s) :
    Ends (append k a) s (fun _ s' => Has k s' (m++[a])) fun _ s' => Has k s' m := by
  refine .get_bind ?_
  by_cases hopen : s.opened = true
  swap
  · rw [if_pos hopen]
    exact .stop h
  rw [if_neg (not_not.mpr hopen)]
  split_ifs with hlarge
  · exact .stop h
  have hsize := not_lt.mp hlarge
  obtain ⟨before,l,hready⟩ := h.ready hopen (hclean hopen)
  refine (makeRoom_ends hready hsize).bind fun at' s₁ hs₁ => ?_
  obtain ⟨before,l,hready,rfl,hroom⟩ := hs₁
  have hfits := hready.fits.concat (k.fits a hsize) hroom
  refine (putRecord_ends hready hroom).bind fun _ s₂ hs₂ => ?_
  obtain ⟨hpages,hid,hopened,hbody⟩ := hs₂
  refine (flushPage_ends (hpages ▸ hready.holds) (hid.trans hready.id)
    (hbody ▸ stored_page hfits)).mono (fun _ s₃ hs₃ => ?_)
    fun _ s₃ hs₃ => ?_
  · obtain ⟨p,rfl,hp⟩ := hs₃
    refine ⟨_,hp,?_,fun _ => ⟨before,l++[a],rfl,hid.trans hready.id⟩⟩
    rw [← hready.flatten]
    simp
  · rw [hs₃]
    exact .of_ready hready hpages hid

theorem close_ends (h : Has k s m) (hclean : s.opened = true → Clean s) :
    Ends close s (fun _ s' => Has k s' m) fun _ s' => Has k s' m := by
  refine .get_bind ?_
  by_cases hopen : s.opened = true
  swap
  · rw [if_pos hopen]
    exact .stop h
  rw [if_neg (not_not.mpr hopen)]
  obtain ⟨before,l,hready⟩ := h.ready hopen (hclean hopen)
  have hflush := flushPage_ends hready.holds hready.id (hready.body ▸ stored_page hready.fits)
  refine (hflush.mono (fun _ _ hs => hs) fun _ s₁ hs₁ => ?_).bind fun _ s₁ hs₁ => .modify_bind ?_
  · rw [hs₁]
    exact .of_ready hready rfl rfl
  · obtain ⟨p,rfl,hp⟩ := hs₁
    have hkept : ∀ s' : Store ι, s'.pages = p → s'.opened = false → Has k s' m := fun s' hpages hclosed =>
      ⟨_,hpages ▸ hp,hready.flatten,fun hopened => absurd hopened (by simp [hclosed])⟩
    exact call_ends (fun _ => hkept _ rfl rfl) (hkept _ rfl rfl)

lemma Has.of_closed (hholds : Holds k p contents) (hm : contents.flatten = m) {s' : Store ι}
    (hpages : s'.pages = p)
    (hclosed : s'.opened = false) : Has k s' m :=
  ⟨contents,hpages ▸ hholds,hm,fun hopened => absurd hopened (by simp [hclosed])⟩

lemma loadPage_ends (hholds : Holds k s.pages contents) (hm : contents.flatten = m)
    (hclosed : s.opened = false) :
    Ends (loadPage k s.pages.pageCount) s (fun _ s' => ∃ before l, Holds k s'.pages (before++[l]) ∧
      (before++[l]).flatten = m ∧
      s'.currentPageID = firstDataPageID+before.length) fun _ s' => Has k s' m := by
  rw [loadPage,hholds.count]
  obtain rfl | ⟨before,l,rfl⟩ := contents.eq_nil_or_concat'
  · rw [if_pos (by simp)]
    refine ((allocatePage_ends hholds).mono (fun _ _ hs => hs) fun _ s₁ hs₁ =>
      ?_).bind fun id s₁ hs₁ => .modify_bind ?_
    · rw [hs₁]
      exact .of_closed hholds hm rfl hclosed
    obtain ⟨rfl,p,rfl,hp⟩ := hs₁
    refine (flushPage_ends (show Holds k p ([]++[[]]) from hp) rfl
      (fresh_page (k := k) ▸ stored_page fits_nil)).mono
      (fun _ s₂ hs₂ => ?_) fun _ s₂ hs₂ => ?_
    · obtain ⟨p',rfl,hp'⟩ := hs₂
      exact ⟨[],[],hp',hm,rfl⟩
    · rw [hs₂]
      exact .of_closed hp hm rfl hclosed
  · have hlen : firstDataPageID+(before++[l]).length = firstDataPageID+before.length+1 := by
      simp [Nat.add_assoc]
    rw [hlen,if_neg (by omega),Nat.add_sub_cancel]
    refine .bind (A := fun _ s' => s'.pages = s.pages)
      (wrap_ends (call_ends (fun _ => .of_closed hholds hm rfl hclosed) ?_)) ?_
    · simp only [hholds.readPage (i := before.length) (by simp)]
    · exact fun body s₁ hs₁ => .modify ⟨before,l,hs₁ ▸ hholds,hm,rfl⟩

theorem openStore_ends (hholds : Holds k s.pages contents) (hm : contents.flatten = m)
    (hclosed : s.opened = false) :
    Ends (openStore k) s (fun _ s' => Has k s' m ∧ s'.opened = true) fun _ s' => Has k s' m := by
  have hkept : ∀ s' : Store ι, s'.pages = s.pages → s'.opened = false → Has k s' m :=
    fun s' => .of_closed hholds hm
  refine .get_bind ?_
  rw [if_neg (by simp [hclosed])]
  refine .bind (A := fun _ s' => s' = s.next)
    (wrap_ends (call_ends (fun _ => hkept _ rfl hclosed) rfl)) fun _ s₁ hs₁ => ?_
  refine .bind (A := fun n s' => n = s.pages.pageCount ∧ s' = s.next.next)
    (wrap_ends (call_ends (fun _ => hkept _ (by rw [hs₁]; rfl) (by rw [hs₁]; exact hclosed)) ?_))
      fun n s₂ hs₂ => ?_
  · rw [hs₁]
    exact ⟨rfl,rfl⟩
  obtain ⟨rfl,rfl⟩ := hs₂
  refine (loadPage_ends (s := s.next.next) hholds hm hclosed).bind fun _ s₃ hs₃ => .modify ?_
  obtain ⟨before,l,hp,hflat,hid⟩ := hs₃
  exact ⟨⟨_,hp,hflat,fun _ => ⟨before,l,rfl,hid⟩⟩,rfl⟩

end Calls

section Scan
variable {keep : α → Option Bool}

lemma select_append (l l' : List α) :
    select keep (l++l') = (select keep l).bind fun kept => (select keep l').map (kept++·) := by
  induction l with
  | nil => simp [select]
  | cons a l ih =>
    simp only [List.cons_append,select,ih]
    cases keep a with
    | none => rfl
    | some b =>
      cases select keep l with
      | none => rfl
      | some kept => cases b <;> cases select keep l' <;> rfl

lemma select_true (l : List α) : select (fun _ => some true) l = some l := by
  induction l with
  | nil => rfl
  | cons a l ih =>
    rw [select,ih]
    rfl

lemma select_of_ne_none (h : ∀ a ∈ l, keep a≠none) :
    select keep l = some (l.filter (keep · = some true)) := by
  induction l with
  | nil => rfl
  | cons a l ih =>
    obtain ⟨ha,hl⟩ := List.forall_mem_cons.mp h
    rw [select,ih hl]
    cases hkeep : keep a with
    | none => exact absurd hkeep ha
    | some b => cases b <;> simp [hkeep]

lemma select_eq_none (h : ¬∀ a ∈ l, keep a≠none) : select keep l = none := by
  induction l with
  | nil => simp at h
  | cons a l ih =>
    rw [List.forall_mem_cons,not_and_or,not_not] at h
    rw [select]
    obtain ha | hl := h
    · rw [ha]
      rfl
    · rw [ih hl]
      cases keep a <;> rfl

def scanned (keep : α → Option Bool) (m : List α) : Except Fail (List α) :=
  match select keep m with
  | none => .error .panic
  | some kept => .ok kept

lemma next_of_quiet (h : s.script = []) : s.next = s := by
  rw [Store.next,h,List.tail_nil,← h]

lemma call_of_quiet {op : PageStore → Except Pager.Err β × PageStore} {b : β} (h : s.script = [])
    (hop : op s.pages = (.ok b,p)) :
    call op s = (.ok b,{ s with pages := p }) := by
  have hhead : s.script.headD .ok = .ok := by
    rw [h]
    rfl
  rw [call,hhead,next_of_quiet h,hop]
  rfl

lemma call_error_of_quiet {op : PageStore → Except Pager.Err β × PageStore} {e : Pager.Err}
    (h : s.script = [])
    (hop : op s.pages = (.error e,p)) : call op s = (.error (.err (.pager e)),{ s with pages := p }) := by
  have hhead : s.script.headD .ok = .ok := by
    rw [h]
    rfl
  rw [call,hhead,next_of_quiet h,hop]
  rfl

lemma wrap_ok {text : String} {ids : List ℕ} {x : Cmd ι β} {b : β} {s' : Store ι} (h : x s = (.ok b,s')) :
    wrap text ids x s = (.ok b,s') := handle_ok h

lemma readRecords_run {id : ℕ} {body : Bytes} (h : s.script = [])
    (hread : s.pages.readPage id = (.ok body,s.pages)) :
    readRecords k id s = (.ok (decode k.codec body),s) := by
  refine handle_ok ?_
  rw [bind_ok (call_of_quiet h hread)]
  rfl

lemma scanPages_run (h : s.script = []) {contents : List (List α)} {i : ℕ}
    (hread : ∀ j l, contents[j]? = some l → ∃ body, s.pages.readPage (i+j) = (.ok body,s.pages) ∧
      decode k.codec body = l) :
    scanPages k keep (List.range' i contents.length) s = (scanned keep contents.flatten,s) := by
  induction contents generalizing i with
  | nil => rfl
  | cons l contents ih =>
    obtain ⟨body,hbody,hdecode⟩ := hread 0 l rfl
    have hrest := ih (i := i+1) fun j l' hj => by
      obtain ⟨body',hbody',hdecode'⟩ := hread (j+1) l' hj
      exact ⟨body',by rw [← hbody',Nat.add_assoc,Nat.add_comm 1 j],hdecode'⟩
    rw [List.length_cons,List.range'_succ,scanPages,bind_ok (readRecords_run h
      (show s.pages.readPage i = _ from hbody)),hdecode,scanned,List.flatten_cons,select_append]
    cases select keep l with
    | none => rfl
    | some kept =>
      rw [scanned] at hrest
      cases hkept : select keep contents.flatten with
      | none =>
        rw [hkept] at hrest
        exact bind_error hrest
      | some kept' =>
        rw [hkept] at hrest
        exact bind_ok hrest

theorem Has.scan_run (h : Has k s m) (keep : α → Option Bool) (hscript : s.script = [])
    (hopen : s.opened = true) : scan k keep s = (scanned keep m,s) := by
  obtain ⟨contents,hholds,rfl,-⟩ := h.pages
  have hcount : pageCount k s = (.ok s.pages.pageCount,s) := wrap_ok (call_of_quiet hscript rfl)
  rw [scan,bind_ok (get_run s),if_neg (not_not.mpr hopen),bind_ok hcount,hholds.count,
    Nat.add_sub_cancel_left]
  refine scanPages_run hscript fun j l hj => ⟨_,hholds.readPage ?_,(hholds.stored j l hj).decode⟩
  exact (List.getElem?_eq_some_iff.mp hj).1

lemma loadPage_last {before : List (List α)} (hholds : Holds k s.pages (before++[l]))
    (hscript : s.script = []) :
    loadPage k s.pages.pageCount s =
      (.ok (),{ s with
        currentPageID := firstDataPageID+before.length, currentBody :=
        s.pages.body (firstDataPageID+before.length) }) := by
  have hlen : firstDataPageID+(before++[l]).length = firstDataPageID+before.length+1 := by
    simp [Nat.add_assoc]
  rw [loadPage,hholds.count,hlen,if_neg (by omega),Nat.add_sub_cancel,
    bind_ok (wrap_ok (call_of_quiet hscript (hholds.readPage (i := before.length) (by simp))))]
  rfl

lemma loadPage_fresh (hholds : Holds k s.pages []) (hscript : s.script = []) :
    ∃ p, loadPage k s.pages.pageCount s =
    (.ok (),{ s with
      pages := p, currentPageID := firstDataPageID, currentBody :=
      page k.codec dataPageBodySize [] }) ∧ Holds k p [[]] := by
  rw [loadPage,hholds.count,if_pos (by simp)]
  obtain ⟨p,halloc,hp⟩ | ⟨-,hfull⟩ := hholds.allocatePage
  · obtain ⟨p',hwrite,-,hp'⟩ := hp.writePage (i := 0) (by simp) (stored_page fits_nil)
    refine ⟨p',?_,hp'⟩
    rw [bind_ok (wrap_ok (call_of_quiet hscript halloc)),startPage,fresh_page (k := k),
      bind_ok (modify_run ..),flushPage,bind_ok (get_run _)]
    exact call_of_quiet hscript hwrite
  · rw [hholds.count,List.length_nil] at hfull
    exact absurd hfull (by decide)

lemma openStore_of_load {s' : Store ι} (hscript : s.script = []) (hclosed : s.opened = false)
    (hload : loadPage k s.pages.pageCount s = (.ok (),s')) :
    openStore k s = (.ok (),{ s' with opened := true }) := by
  have hcount : pageCount k s = (.ok s.pages.pageCount,s) := wrap_ok (call_of_quiet hscript rfl)
  rw [openStore,bind_ok (get_run s),if_neg (by simp [hclosed]),
    bind_ok (wrap_ok (call_of_quiet hscript rfl)),bind_ok hcount,bind_ok hload]
  rfl

lemma openStore_run (hholds : Holds k s.pages contents) (hscript : s.script = [])
    (hclosed : s.opened = false) :
    ∃ s', openStore k s = (.ok (),s') ∧ s'.script = [] := by
  obtain rfl | ⟨before,l,rfl⟩ := contents.eq_nil_or_concat'
  · obtain ⟨p,hload,-⟩ := loadPage_fresh hholds hscript
    exact ⟨_,openStore_of_load hscript hclosed hload,hscript⟩
  · exact ⟨_,openStore_of_load hscript hclosed (loadPage_last hholds hscript),hscript⟩

end Scan

/-- What is done to a store. A store is opened anew on the file whatever the process was doing before. -/
inductive Action (α : Type)
  | append (a : α) (script : List Outcome)
  | close (script : List Outcome)
  | reopen (script : List Outcome)

def Store.dead (s : Store ι) : Store ι := { s with opened := false }

/-- A crash may also come when all calls are done, before the result is returned. -/
def settle : Except Fail Unit × Store ι → Except Fail Unit × Store ι
  | (.ok (),s) => if s.script.head? = some .crash then (.error .crash,s.dead) else (.ok (),s)
  | (.error .crash,s) => (.error .crash,s.dead)
  | (.error e,s) => (.error e,s)

/-- One action under its script of faults. -/
def step (k : Kind α ι) (index : ι) : Action α → Store ι → Except Fail Unit × Store ι
  | .append a script,s => settle (append k a { s with script := script })
  | .close script,s => settle (close { s with script := script })
  | .reopen script,s => settle (openStore k (newStoreWithIndex s.pages script index))

/-- What an action may do to the records: an append adds its record exactly if it returns nil, and
if the process ends during it, it may have added it. -/
def Admits : Action α → List α → Except Fail Unit → List α → Prop
  | .append a _,m,.ok (),m' => m' = m++[a]
  | .append a _,m,.error .crash,m' => m' = m ∨ m' = m++[a]
  | _,m,_,m' => m' = m

/-- No append and no close is called while the page in memory is not the one on disk, or has no header. -/
def InStep : Action α → Store ι → Prop
  | .append _ _,s => s.opened = true → Clean s
  | .close _,s => s.opened = true → Clean s
  | .reopen _,_ => True

instance (s : Store ι) : Decidable (Clean s) := by unfold Clean; infer_instance

instance (act : Action α) (s : Store ι) : Decidable (InStep act s) := by
    cases act <;> unfold InStep <;> infer_instance

section Runs
variable {index : ι}

lemma Has.dead (h : Has k s m) : Has k s.dead m := by
  obtain ⟨contents,hholds,hm,-⟩ := h.pages
  exact .of_closed hholds hm rfl rfl

lemma Has.script (h : Has k s m) (script : List Outcome) : Has k { s with script := script } m := ⟨h.pages⟩

lemma settle_has {x : Cmd ι Unit} {m' : List α}
    (h : Ends x s (fun _ s' => Has k s' m') fun _ s' => Has k s' m) :
    match settle (x s) with
    | (.ok (),s') => Has k s' m'
    | (.error .crash,s') => Has k s' m ∨ Has k s' m'
    | (.error _,s') => Has k s' m := by
  rcases hrun : x s with ⟨e | a,s'⟩
  · have hs' := h.error hrun
    cases e
    exacts [hs',hs',.inl hs'.dead]
  · have hs' := h.ok hrun
    simp only [settle]
    split_ifs
    exacts [.inr hs'.dead,hs']

lemma settle_kept {x : Cmd ι Unit} (h : Ends x s (fun _ s' => Has k s' m) fun _ s' => Has k s' m) :
    Has k (settle (x s)).2 m := by
  have hsettle := settle_has h
  rcases hrun : settle (x s) with ⟨e | a,s'⟩
  · rw [hrun] at hsettle
    cases e
    exacts [hsettle,hsettle,hsettle.elim id id]
  · rwa [hrun] at hsettle

theorem step_admits (act : Action α) (s : Store ι) (m : List α) (h : Has k s m) (hact : InStep act s) :
    ∃ m', Admits act m (step k index act s).1 m' ∧ Has k (step k index act s).2 m' := by
  cases act with
  | append a script =>
    have hends := settle_has (append_ends (a := a) (h.script script) hact)
    rw [step]
    rcases hrun : settle (append k a { s with script := script }) with ⟨e | _,s'⟩
    · rw [hrun] at hends
      cases e with
      | err => exact ⟨m,rfl,hends⟩
      | panic => exact ⟨m,rfl,hends⟩
      | crash =>
        obtain hends | hends := hends
        exacts [⟨m,.inl rfl,hends⟩,⟨m++[a],.inr rfl,hends⟩]
    · rw [hrun] at hends
      exact ⟨m++[a],rfl,hends⟩
  | close script => exact ⟨m,rfl,settle_kept (close_ends (h.script script) hact)⟩
  | reopen script =>
    obtain ⟨contents,hholds,hm,-⟩ := h.pages
    have hends := openStore_ends (s := newStoreWithIndex s.pages script index) hholds hm rfl
    exact ⟨m,rfl,settle_kept (hends.mono (fun _ _ hs => hs.1) fun _ _ hs => hs)⟩

/-- What a new process reads. -/
def readBack (k : Kind α ι) (index : ι) (p : PageStore) : Except Fail (List α) :=
  ((do openStore k; scan k fun _ => some true) (newStoreWithIndex p [] index)).1

lemma Has.reopened (h : Has k s m) (index : ι) (keep : α → Option Bool) :
    ((do openStore k; scan k keep) (newStoreWithIndex s.pages [] index)).1 =
      if ∀ a ∈ m, keep a≠none then .ok (m.filter (keep · = some true)) else .error .panic := by
  obtain ⟨contents,hholds,hm,-⟩ := h.pages
  obtain ⟨s',hrun,hscript⟩ := openStore_run (s := newStoreWithIndex s.pages [] index) hholds rfl rfl
  obtain ⟨hhas,hopen⟩ := (openStore_ends (s := newStoreWithIndex s.pages [] index) hholds hm rfl).ok hrun
  rw [bind_ok hrun,hhas.scan_run _ hscript hopen,scanned]
  split_ifs with hkeep
  · rw [select_of_ne_none hkeep]
  · rw [select_eq_none hkeep]

lemma Has.readBack (h : Has k s m) : readBack k index s.pages = .ok m :=
  (h.reopened index _).trans (by simp)

lemma has_empty : Has k (newStoreWithIndex .empty [] index) [] := ⟨[],⟨rfl,rfl,rfl,by simp⟩,rfl,nofun⟩

theorem run_admits (acts : List (Action α))
    (h : Machine.Allowed (step k index) InStep acts (newStoreWithIndex .empty [] index)) :
    ∃ m, Machine.Trace Admits [] acts
      (Machine.run (step k index) acts (newStoreWithIndex .empty [] index)).1 m ∧
      Has k (Machine.run (step k index) acts (newStoreWithIndex .empty [] index)).2 m :=
  Machine.run_traces step_admits has_empty h

end Runs

end Plomvix.PageLog
