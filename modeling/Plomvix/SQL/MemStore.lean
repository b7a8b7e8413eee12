import Plomvix.SQL.SortKey
import Plomvix.Lib.Slices

/-! The ordered store in memory of `store.go`: a slice of entries in the order of their keys. A byte
slice is a place in the memory, so that it can be said which of them change. -/
namespace Plomvix.SQL.MemStore
open Lib SortKey

abbrev Ref := ℕ

abbrev Memory := List Bytes

/-- A key of the list and its value. -/
structure Entry where
  key : Key
  value : Ref
  deriving DecidableEq

inductive Err
  | notFound
  | panic
  deriving DecidableEq

def read (m : Memory) (r : Ref) : Bytes := m.getD r []

def duplicate (m : Memory) (r : Ref) : Ref × Memory := (m.length,m++[read m r])

/-- `sort.Search` for the first key that is not below `k`. -/
def index (entries : List Entry) (k : Key) : ℕ :=
  binarySearch entries.length fun i => (entries[i]?).any fun e => decide (0 ≤ e.key.compare k)

def search (entries : List Entry) (k : Key) : ℕ × Bool :=
  (index entries k,(entries[index entries k]?).any fun e => decide (e.key.compare k = 0))

def makeRoom (entries : List Entry) (idx : ℕ) : List Entry :=
  let es := entries++[⟨⟨[],[]⟩,0⟩]
  es.take (idx+1)++(es.drop idx).take (es.length-(idx+1))

def put (m : Memory) (entries : List Entry) (k : Key) (value : Ref) : Memory × List Entry :=
  let (stored,m) := duplicate m value
  match search entries k with
  | (idx,true) => (m,entries.modify idx fun e => ⟨e.key,stored⟩)
  | (idx,false) => (m,(makeRoom entries idx).set idx ⟨k,stored⟩)

def get (m : Memory) (entries : List Entry) (k : Key) : Except Err Ref × Memory :=
  match (search entries k).2 with
  | false => (.error .notFound,m)
  | true =>
    match entries[index entries k]? with
    | none => (.error .panic,m)
    | some e =>
      let (v,m) := duplicate m e.value
      (.ok v,m)

def delete (entries : List Entry) (k : Key) : List Entry :=
  match search entries k with
  | (idx,true) => entries.take idx++entries.drop (idx+1)
  | (_,false) => entries

def scanFrom (last : Key) : Memory → List Entry → Memory × List (Key × Ref)
  | m,[] => (m,[])
  | m,e::es =>
    if 0 ≤ e.key.compare last then (m,[])
    else
      let (vc,m) := duplicate m e.value
      let (m,rest) := scanFrom last m es
      (m,(e.key,vc)::rest)

def scan (m : Memory) (entries : List Entry) (first last : Key) : Memory × List (Key × Ref) :=
  if 0 ≤ first.compare last then (m,[]) else scanFrom last m (entries.drop (index entries first))

/-- The store, and the slices that its caller holds. -/
structure World where
  mem : Memory
  entries : List Entry
  held : List Ref

/-- What the caller can do: make a slice, write into one that it holds, and call the store. -/
inductive Op
  | make (b : Bytes)
  | write (r : Ref) (b : Bytes)
  | put (k : Key) (value : Ref)
  | get (k : Key)
  | delete (k : Key)
  | scan (first last : Key)

def World.step (w : World) : Op → World
  | .make b => {w with mem := w.mem++[b],held := w.mem.length::w.held}
  | .write r b => if r ∈ w.held then {w with mem := w.mem.set r b} else w
  | .put k value =>
    if value ∈ w.held then {w with
      mem := (put w.mem w.entries k value).1,entries := (put w.mem w.entries k value).2} else w
  | .get k =>
    match get w.mem w.entries k with
    | (.ok v,m) => {w with mem := m,held := v::w.held}
    | (.error _,m) => {w with mem := m}
  | .delete k => {w with entries := delete w.entries k}
  | .scan first last =>
    {w with
      mem := (scan w.mem w.entries first last).1,held :=
      (scan w.mem w.entries first last).2.map Prod.snd++w.held}

/-- The last value put under each key and not deleted. -/
def World.record (w : World) (last : Bytes → Option Bytes) : Op → Bytes → Option Bytes
  | .put k value => if value ∈ w.held then Function.update last k.data (some (read w.mem value)) else last
  | .delete k => Function.update last k.data none
  | _ => last

/-- The calls, with the last value put under each key. -/
def run : List Op → World × (Bytes → Option Bytes) → World × (Bytes → Option Bytes) :=
  fun ops s => ops.foldl (fun s op => (s.1.step op,s.1.record s.2 op)) s

def new : World × (Bytes → Option Bytes) := (⟨[],[],[]⟩,fun _ => none)

/-- The keys ascend. -/
def Sorted (entries : List Entry) : Prop := entries.Pairwise fun a b => a.key.data < b.key.data

section Search
variable {entries : List Entry} {k a b : Key}

lemma compare_nonneg : 0 ≤ a.compare b ↔ b.data ≤ a.data := by
  rw [Key.compare,compareBytes]
  split_ifs with hlt heq
  · simpa using hlt
  · simp [heq]
  · simpa using not_lt.mp hlt

lemma compare_eq_zero : a.compare b = 0 ↔ a.data = b.data := by
  rw [Key.compare,compareBytes]
  split_ifs with hlt heq
  · simpa using hlt.ne
  · simp [heq]
  · simpa using heq

lemma index_cut (hs : Sorted entries) (k : Key) :
    ∃ l r, entries = l++r ∧ index entries k = l.length ∧ (∀ e ∈ l, e.key.data < k.data) ∧
      ∀ e ∈ r, k.data ≤ e.key.data := by
  have hbegins : Begins entries.length (fun i => (entries[i]?).any fun e =>
    decide (0 ≤ e.key.compare k)) (index entries k) := by
    refine begins_binarySearch fun i j hij hj hi => ?_
    have hi' : i < entries.length := hij.trans_lt hj
    simp only [List.getElem?_eq_getElem hi',List.getElem?_eq_getElem hj,Option.any_some,
      decide_eq_true_eq,compare_nonneg] at hi ⊢
    obtain rfl | hlt := hij.eq_or_lt
    · exact hi
    · exact hi.trans (List.pairwise_iff_getElem.mp hs i j hi' hj hlt).le
  refine ⟨entries.take (index entries k),entries.drop (index entries k),(List.take_append_drop ..).symm,
    (List.length_take_of_le hbegins.le).symm,fun e he => ?_,fun e he => ?_⟩
  · obtain ⟨i,hi,rfl⟩ := List.mem_take_iff_getElem.mp he
    have hbelow := hbegins.below i (by omega)
    simpa [List.getElem?_eq_getElem (show i < entries.length by omega),compare_nonneg] using hbelow
  · obtain ⟨i,hi,rfl⟩ := List.mem_drop_iff_getElem.mp he
    have hi : index entries k+i < entries.length := by omega
    have habove := hbegins.above (index entries k+i) (by omega) hi
    simpa [List.getElem?_eq_getElem hi,compare_nonneg] using habove

/-- The entries below the key, the entry with the key if there is one, and those above it. -/
structure Parts (entries : List Entry) (k : Key) (l mid r : List Entry) : Prop where
  whole : entries = l++(mid++r)
  found : search entries k = (l.length,decide (mid≠[]))
  below : ∀ e ∈ l, e.key.data < k.data
  above : ∀ e ∈ r, k.data < e.key.data
  mid : mid = [] ∨ ∃ e, mid = [e] ∧ e.key.data = k.data

lemma exists_parts (hs : Sorted entries) (k : Key) : ∃ l mid r, Parts entries k l mid r := by
  obtain ⟨l,r,rfl,hindex,hl,hr⟩ := index_cut hs k
  have hr' := (List.pairwise_append.mp hs).2.1
  have hget : (l++r)[index (l++r) k]? = r.head? := by
    rw [hindex,List.getElem?_append_right le_rfl,Nat.sub_self,List.head?_eq_getElem?]
  cases r with
  | nil => exact ⟨l,[],[],by simp,by rw [search,hget,hindex]; rfl,hl,nofun,.inl rfl⟩
  | cons e r =>
    obtain ⟨habove,-⟩ := List.pairwise_cons.mp hr'
    have he := hr e (List.mem_cons_self ..)
    by_cases heq : e.key.data = k.data
    · refine ⟨l,[e],r,by simp,?_,hl,fun x hx => heq ▸ habove x hx,.inr ⟨e,rfl,heq⟩⟩
      rw [search,hget,hindex]
      simp [compare_eq_zero,heq]
    · have hlt : k.data < e.key.data := he.lt_of_ne (Ne.symm heq)
      refine ⟨l,[],e::r,by simp,?_,hl,fun x hx => ?_,.inl rfl⟩
      · rw [search,hget,hindex]
        simp [compare_eq_zero,heq]
      · obtain rfl | hx := List.mem_cons.mp hx
        exacts [hlt,hlt.trans (habove x hx)]

variable {l mid r : List Entry}

lemma set_makeRoom (l r : List Entry) (e : Entry) :
    (makeRoom (l++r) l.length).set l.length e = l++e::r := by
  generalize hz : (⟨⟨[],[]⟩,0⟩ : Entry) = z
  obtain ⟨y,rest,hy⟩ := List.exists_cons_of_ne_nil (show r++[z]≠[] by simp)
  have hlen : (l++(r++[z])).length-(l.length+1) = r.length := by
    simp only [List.length_append,List.length_singleton]
    omega
  simp only [makeRoom,hz,List.append_assoc,hlen,List.drop_left,List.take_left,List.take_length_add_append]
  simp [hy]

lemma modify_middle (l r : List Entry) (e : Entry) (f : Entry → Entry) :
    (l++e::r).modify l.length f = l++f e::r := by
  rw [List.modify_eq_take_cons_drop (by simp)]
  simp

lemma Parts.put (h : Parts entries k l mid r) (m : Memory) (value : Ref) :
    ∃ key : Key, key.data = k.data ∧ put m entries k value = (m++[read m value],l++⟨key,m.length⟩::r) := by
  rw [MemStore.put,h.found]
  obtain rfl | ⟨e,rfl,he⟩ := h.mid
  · refine ⟨k,rfl,?_⟩
    simp [duplicate,h.whole,set_makeRoom]
  · refine ⟨e.key,he,?_⟩
    simp [duplicate,h.whole,modify_middle]

lemma Parts.delete (h : Parts entries k l mid r) : delete entries k = l++r := by
  rw [MemStore.delete,h.found]
  obtain rfl | ⟨e,rfl,he⟩ := h.mid
  · simp [h.whole]
  · simp [h.whole]

lemma Parts.get (h : Parts entries k l mid r) (m : Memory) :
    get m entries k = match mid with
      | [] => (.error .notFound,m)
      | e::_ => (.ok m.length,m++[read m e.value]) := by
  rw [MemStore.get,h.found]
  obtain rfl | ⟨e,rfl,he⟩ := h.mid
  · rfl
  · have hindex : index entries k = l.length := congrArg Prod.fst h.found
    rw [hindex]
    simp [h.whole,duplicate]

end Search

section Memory
variable {m bs : Memory} {r : Ref} {es : List Entry}

lemma read_append (h : r < m.length) : read (m++bs) r = read m r := by
  rw [read,read,List.getD_append _ _ _ _ h]

lemma read_new (m : Memory) (b : Bytes) (bs : Memory) : read (m++b::bs) m.length = b := by
  simp [read]

lemma read_set {x : Ref} (h : x≠r) (b : Bytes) : read (m.set r b) x = read m x := by
  simp [read,List.getD_eq_getElem?_getD,List.getElem?_set_ne (Ne.symm h)]

lemma scanFrom_spec (last : Key) (h : ∀ e ∈ es, e.value < m.length) :
    ∃ bs, (scanFrom last m es).1 = m++bs ∧
      (∀ x ∈ (scanFrom last m es).2, m.length ≤ x.2 ∧ x.2 < (m++bs).length) ∧
      (scanFrom last m es).2.map (fun x => (x.1.data,read (m++bs) x.2)) =
        (es.takeWhile fun e => decide (e.key.data < last.data)).map fun e =>
          (e.key.data,read m e.value) := by
  induction es generalizing m with
  | nil => exact ⟨[],by simp [scanFrom]⟩
  | cons e es ih =>
    rw [scanFrom]
    by_cases hlast : last.data ≤ e.key.data
    · refine ⟨[],?_⟩
      simp [compare_nonneg,hlast]
    · obtain ⟨he,hes⟩ := List.forall_mem_cons.mp h
      obtain ⟨bs,hm,hrange,hmap⟩ := ih (m := m++[read m e.value]) fun x hx => (hes x hx).trans_le (by simp)
      rw [if_neg (mt compare_nonneg.mp hlast)]
      have hassoc : m++[read m e.value]++bs = m++read m e.value::bs := by simp
      simp only [duplicate] at hm hrange hmap ⊢
      rw [hassoc] at hm hrange hmap
      refine ⟨read m e.value::bs,hm,?_,?_⟩
      · rw [List.forall_mem_cons]
        refine ⟨⟨le_rfl,by simp⟩,fun x hx => ⟨?_,(hrange x hx).2⟩⟩
        exact (Nat.le_add_right ..).trans ((List.length_append ..).symm.trans_le (hrange x hx).1)
      · rw [List.map_cons,hmap,read_new,List.takeWhile_cons_of_pos (by simpa using hlast),List.map_cons]
        refine congrArg _ (List.map_congr_left fun x hx => ?_)
        rw [read_append (hes x (List.takeWhile_subset _ hx))]

lemma takeWhile_sorted (hs : Sorted es) (d : Bytes) :
    es.takeWhile (fun e => decide (e.key.data < d)) = es.filter fun e => decide (e.key.data < d) := by
  induction es with
  | nil => rfl
  | cons e es ih =>
    obtain ⟨habove,hs⟩ := List.pairwise_cons.mp hs
    by_cases he : e.key.data < d
    · rw [List.takeWhile_cons_of_pos (by simpa using he),List.filter_cons_of_pos (by simpa using he),ih hs]
    · rw [List.takeWhile_cons_of_neg (by simpa using he),
        List.filter_cons_of_neg (by simpa using he),eq_comm,List.filter_eq_nil_iff]
      intro x hx
      simpa using (not_lt.mp he).trans (habove x hx).le

end Memory

/-- The entries hold the last values, in slices that the caller does not hold. -/
structure Inv (w : World) (last : Bytes → Option Bytes) : Prop where
  sorted : Sorted w.entries
  stored : ∀ e ∈ w.entries, e.value < w.mem.length ∧ e.value ∉ w.held
  held : ∀ r ∈ w.held, r < w.mem.length
  last : ∀ d v, last d = some v ↔ ∃ e ∈ w.entries, e.key.data = d ∧ read w.mem e.value = v

section Run
variable {w : World} {last : Bytes → Option Bytes} {k : Key}

lemma Inv.grow (h : Inv w last) (bs : Memory) (new : List Ref)
    (hnew : ∀ r ∈ new, w.mem.length ≤ r ∧ r < (w.mem++bs).length) :
    Inv ⟨w.mem++bs,w.entries,new++w.held⟩ last := by
  have hlen : w.mem.length ≤ (w.mem++bs).length := by simp
  refine ⟨h.sorted,fun e he => ?_,fun r hr => ?_,fun d v => ?_⟩
  · obtain ⟨hlt,hnot⟩ := h.stored e he
    refine ⟨hlt.trans_le hlen,fun hmem => ?_⟩
    obtain hmem | hmem := List.mem_append.mp hmem
    · exact absurd hlt (not_lt.mpr (hnew _ hmem).1)
    · exact hnot hmem
  · obtain hr | hr := List.mem_append.mp hr
    exacts [(hnew r hr).2,(h.held r hr).trans_le hlen]
  · rw [h.last]
    refine exists_congr fun e => and_congr_right fun he => ?_
    rw [read_append (h.stored e he).1]

lemma Inv.write (h : Inv w last) {r : Ref} (hr : r ∈ w.held) (b : Bytes) :
    Inv {w with mem := w.mem.set r b} last := by
  refine ⟨h.sorted,fun e he => ⟨?_,(h.stored e he).2⟩,fun x hx => ?_,fun d v => ?_⟩
  · simpa using (h.stored e he).1
  · simpa using h.held x hx
  · rw [h.last]
    refine exists_congr fun e => and_congr_right fun he => ?_
    have hne : e.value≠r := fun heq => (h.stored e he).2 (heq ▸ hr)
    rw [read_set hne]

lemma Parts.sorted_without {entries l mid r : List Entry} (hp : Parts entries k l mid r)
    (hs : Sorted entries) : Sorted (l++r) := by
  rw [hp.whole] at hs
  exact hs.sublist (List.Sublist.append_left (List.sublist_append_right ..) l)

lemma Parts.mem_iff {entries l mid r : List Entry} (hp : Parts entries k l mid r) {e : Entry}
    (he : e.key.data≠k.data) :
    e ∈ entries ↔ e ∈ l++r := by
  have hmid : e ∉ mid := by
    intro hmem
    obtain hnil | ⟨x,hx,hxk⟩ := hp.mid
    · simp [hnil] at hmem
    · rw [hx,List.mem_singleton] at hmem
      exact he (hmem ▸ hxk)
  simp [hp.whole,hmid]

lemma Parts.ne_key {entries l mid r : List Entry} (hp : Parts entries k l mid r) {e : Entry}
    (he : e ∈ l++r) : e.key.data≠k.data := by
  obtain he | he := List.mem_append.mp he
  exacts [(hp.below e he).ne,(hp.above e he).ne']

lemma Parts.mem_mid {entries l mid r : List Entry} (hp : Parts entries k l mid r) {e : Entry}
    (he : e.key.data = k.data) :
    e ∈ entries ↔ e ∈ mid := by
  have hother : e ∉ l++r := fun hmem => hp.ne_key hmem he
  rw [List.mem_append,not_or] at hother
  simp [hp.whole,hother]

lemma Inv.delete (h : Inv w last) (k : Key) :
    Inv {w with entries := delete w.entries k} (Function.update last k.data none) := by
  obtain ⟨l,mid,r,hp⟩ := exists_parts h.sorted k
  have hsub : ∀ e ∈ l++r, e ∈ w.entries := fun e he => (hp.mem_iff (hp.ne_key he)).mpr he
  rw [hp.delete]
  refine ⟨hp.sorted_without h.sorted,fun e he => h.stored e (hsub e he),h.held,fun d v => ?_⟩
  by_cases hd : d = k.data
  · rw [hd,Function.update_self]
    simp only [reduceCtorEq,false_iff]
    rintro ⟨e,he,hek,-⟩
    exact hp.ne_key he hek
  · rw [Function.update_of_ne hd,h.last]
    refine exists_congr fun e => and_congr_left fun ⟨hek,_⟩ => hp.mem_iff (hek ▸ hd)

lemma Inv.put (h : Inv w last) (k : Key) (value : Ref) :
    Inv {w with
      mem := (MemStore.put w.mem w.entries k value).1,entries :=
      (MemStore.put w.mem w.entries k value).2}
      (Function.update last k.data (some (read w.mem value))) := by
  obtain ⟨l,mid,r,hp⟩ := exists_parts h.sorted k
  obtain ⟨key,hkey,hput⟩ := hp.put w.mem value
  have hsub : ∀ e ∈ l++r, e ∈ w.entries := fun e he => (hp.mem_iff (hp.ne_key he)).mpr he
  have hmem (e : Entry) : e ∈ l++⟨key,w.mem.length⟩::r ↔ e = ⟨key,w.mem.length⟩ ∨ e ∈ l++r := by
    simp only [List.mem_append,List.mem_cons]
    tauto
  rw [hput]
  refine ⟨?_,fun e he => ?_,fun x hx => ?_,fun d v => ?_⟩
  · have hs := hp.sorted_without h.sorted
    rw [Sorted,List.pairwise_append] at hs ⊢
    refine ⟨hs.1,List.pairwise_cons.mpr ⟨fun e he => ?_,hs.2.1⟩,fun a ha b hb => ?_⟩
    · simpa only [hkey] using hp.above e he
    · obtain rfl | hb := List.mem_cons.mp hb
      · simpa only [hkey] using hp.below a ha
      · exact hs.2.2 a ha b hb
  · obtain rfl | he := (hmem e).mp he
    · exact ⟨by simp,fun hheld => absurd (h.held _ hheld) (lt_irrefl _)⟩
    · obtain ⟨hlt,hnot⟩ := h.stored e (hsub e he)
      exact ⟨hlt.trans_le (by simp),hnot⟩
  · exact (h.held x hx).trans_le (by simp)
  · by_cases hd : d = k.data
    · rw [hd,Function.update_self]
      constructor
      · intro hv
        exact ⟨⟨key,w.mem.length⟩,(hmem _).mpr (.inl rfl),hkey,by rw [read_new]; exact Option.some.inj hv⟩
      · rintro ⟨e,he,hek,hread⟩
        obtain rfl | he := (hmem e).mp he
        · rw [← hread,read_new]
        · exact absurd hek (hp.ne_key he)
    · rw [Function.update_of_ne hd,h.last]
      constructor
      · rintro ⟨e,he,hek,hread⟩
        refine ⟨e,(hmem e).mpr (.inr ((hp.mem_iff (hek ▸ hd)).mp he)),hek,?_⟩
        rw [read_append (h.stored e he).1,hread]
      · rintro ⟨e,he,hek,hread⟩
        obtain rfl | he := (hmem e).mp he
        · exact absurd (hek.symm.trans hkey) hd
        · rw [read_append (h.stored e (hsub e he)).1] at hread
          exact ⟨e,hsub e he,hek,hread⟩

lemma Inv.scan (h : Inv w last) (first last' : Key) :
    ∃ bs, (MemStore.scan w.mem w.entries first last').1 = w.mem++bs ∧
      (∀ x ∈ (MemStore.scan w.mem w.entries first last').2, w.mem.length ≤ x.2 ∧
        x.2 < (w.mem++bs).length) ∧
      (MemStore.scan w.mem w.entries first last').2.map (fun x => (x.1.data,read (w.mem++bs) x.2)) =
        (w.entries.filter fun e => decide (first.data ≤ e.key.data ∧
          e.key.data < last'.data)).map fun e => (e.key.data,read w.mem e.value) := by
  rw [MemStore.scan]
  by_cases hle : last'.data ≤ first.data
  · have hnone : w.entries.filter (fun e => decide (first.data ≤ e.key.data ∧
      e.key.data < last'.data)) = [] := by
      rw [List.filter_eq_nil_iff]
      intro e _
      simpa using hle.trans
    refine ⟨[],?_⟩
    rw [if_pos (compare_nonneg.mpr hle),hnone]
    simp
  · rw [if_neg (mt compare_nonneg.mp hle)]
    obtain ⟨l,r,hwhole,hindex,hl,hr⟩ := index_cut h.sorted first
    have hdrop : w.entries.drop (index w.entries first) = r := by rw [hindex,hwhole,List.drop_left]
    have hs : Sorted r := by
      have hs := h.sorted
      rw [hwhole] at hs
      exact (List.pairwise_append.mp hs).2.1
    have hfilter : w.entries.filter (fun e => decide (first.data ≤ e.key.data ∧ e.key.data < last'.data)) =
        r.filter fun e => decide (e.key.data < last'.data) := by
      rw [hwhole,List.filter_append,List.filter_eq_nil_iff.mpr fun e he => ?_,List.nil_append]
      · exact List.filter_congr fun e he => by simp [hr e he]
      · simpa using fun hfirst => absurd (hl e he) (not_lt.mpr hfirst)
    rw [hdrop,hfilter,← takeWhile_sorted hs]
    exact scanFrom_spec last' fun e he => (h.stored e (hwhole ▸ List.mem_append_right l he)).1

lemma Inv.step (h : Inv w last) (op : Op) : Inv (w.step op) (w.record last op) := by
  cases op with
  | make b => exact h.grow [b] [w.mem.length] (by simp)
  | write r b =>
    rw [World.step]
    split_ifs with hr
    exacts [h.write hr b,h]
  | put k value =>
    rw [World.step,World.record]
    split_ifs
    exacts [h.put k value,h]
  | get k =>
    obtain ⟨l,mid,r,hp⟩ := exists_parts h.sorted k
    rw [World.step,hp.get]
    cases mid with
    | nil => exact h
    | cons e mid => exact h.grow [read w.mem e.value] [w.mem.length] (by simp)
  | delete k => exact h.delete k
  | scan first last' =>
    obtain ⟨bs,hmem,hrange,-⟩ := h.scan first last'
    rw [World.step,hmem]
    refine h.grow _ _ fun r hr => ?_
    obtain ⟨x,hx,rfl⟩ := List.mem_map.mp hr
    exact hrange x hx

lemma Inv.read_step (h : Inv w last) {r : Ref} (hr : r ∈ w.held) {op : Op} (hop : ∀ b, op≠.write r b) :
    r ∈ (w.step op).held ∧ read (w.step op).mem r = read w.mem r := by
  have hlt := h.held r hr
  cases op with
  | make b => exact ⟨List.mem_cons_of_mem _ hr,read_append hlt⟩
  | write x b =>
    have hne : r≠x := fun heq => hop b (heq ▸ rfl)
    rw [World.step]
    split_ifs
    exacts [⟨hr,read_set hne b⟩,⟨hr,rfl⟩]
  | put k value =>
    obtain ⟨l,mid,r',hp⟩ := exists_parts h.sorted k
    obtain ⟨key,-,hput⟩ := hp.put w.mem value
    rw [World.step,hput]
    split_ifs
    exacts [⟨hr,read_append hlt⟩,⟨hr,rfl⟩]
  | get k =>
    obtain ⟨l,mid,r',hp⟩ := exists_parts h.sorted k
    rw [World.step,hp.get]
    cases mid with
    | nil => exact ⟨hr,rfl⟩
    | cons => exact ⟨List.mem_cons_of_mem _ hr,read_append hlt⟩
  | delete k => exact ⟨hr,rfl⟩
  | scan first last' =>
    obtain ⟨bs,hmem,-⟩ := h.scan first last'
    rw [World.step,hmem]
    exact ⟨List.mem_append_right _ hr,read_append hlt⟩

lemma inv_run (ops : List Op) {s : World × (Bytes → Option Bytes)} (h : Inv s.1 s.2) :
    Inv (run ops s).1 (run ops s).2 := by
  induction ops generalizing s with
  | nil => exact h
  | cons op ops ih => exact ih (h.step op)

lemma inv_new : Inv new.1 new.2 := ⟨.nil,nofun,nofun,by simp [new]⟩

lemma read_run (ops : List Op) {s : World × (Bytes → Option Bytes)} (h : Inv s.1 s.2) {r : Ref}
    (hr : r ∈ s.1.held)
    (hops : ∀ b, Op.write r b ∉ ops) : read (run ops s).1.mem r = read s.1.mem r := by
  induction ops generalizing s with
  | nil => rfl
  | cons op ops ih =>
    obtain ⟨hheld,hread⟩ := h.read_step hr fun b heq => hops b (heq ▸ List.mem_cons_self ..)
    exact (ih (h.step op) hheld fun b hb => hops b (List.mem_cons_of_mem _ hb)).trans hread

end Run

/-- The store answers as the map does. -/
structure OrderedMap (w : World) (last : Bytes → Option Bytes) : Prop where
  sorted : Sorted w.entries
  get_some : ∀ k v, last k.data = some v → ∃ r m, get w.mem w.entries k = (.ok r,m) ∧ read m r = v
  get_none : ∀ k, last k.data = none → (get w.mem w.entries k).1 = .error .notFound
  scan_sorted : ∀ first end', ((scan w.mem w.entries first end').2.map (·.1.data)).Pairwise (· < ·)
  scan_exact : ∀ first end' d v, (d,v) ∈ (scan w.mem w.entries first end').2.map (fun x =>
    (x.1.data,read (scan w.mem w.entries first end').1 x.2)) ↔
    first.data ≤ d ∧ d < end'.data ∧ last d = some v

lemma Inv.orderedMap {w : World} {last : Bytes → Option Bytes} (h : Inv w last) : OrderedMap w last := by
  refine ⟨h.sorted,fun k v hv => ?_,fun k hk => ?_,fun first end' => ?_,fun first end' d v => ?_⟩
  · obtain ⟨l,mid,r,hp⟩ := exists_parts h.sorted k
    obtain ⟨e,he,hek,hread⟩ := (h.last k.data v).mp hv
    have hmid := (hp.mem_mid hek).mp he
    rw [hp.get]
    obtain rfl | ⟨e',rfl,-⟩ := hp.mid
    · cases hmid
    · obtain rfl := List.mem_singleton.mp hmid
      exact ⟨_,_,rfl,(read_new ..).trans hread⟩
  · obtain ⟨l,mid,r,hp⟩ := exists_parts h.sorted k
    rw [hp.get]
    obtain rfl | ⟨e,rfl,hek⟩ := hp.mid
    · rfl
    · have hsome := (h.last k.data _).mpr ⟨e,(hp.mem_mid hek).mpr (List.mem_singleton_self e),hek,rfl⟩
      rw [hk] at hsome
      cases hsome
  · obtain ⟨bs,-,-,hmap⟩ := h.scan first end'
    have hkeys := congrArg (List.map Prod.fst) hmap
    rw [List.map_map,List.map_map] at hkeys
    exact hkeys ▸ List.pairwise_map.mpr (h.sorted.filter _)
  · obtain ⟨bs,hmem,-,hmap⟩ := h.scan first end'
    rw [hmem,hmap,h.last]
    simp only [List.mem_map,List.mem_filter,decide_eq_true_eq,Prod.mk.injEq]
    constructor
    · rintro ⟨e,⟨he,hfirst,hlast⟩,rfl,hread⟩
      exact ⟨hfirst,hlast,e,he,rfl,hread⟩
    · rintro ⟨hfirst,hlast,e,he,rfl,hread⟩
      exact ⟨e,⟨he,hfirst,hlast⟩,rfl,hread⟩

/-- Whatever the caller does, the store is an ordered map, and a slice that it has been given keeps
its bytes until the caller writes into it. -/
theorem memStore_orderedMap (ops : List Op) :
    OrderedMap (run ops new).1 (run ops new).2 ∧
    ∀ later r, r ∈ (run ops new).1.held → (∀ b, Op.write r b ∉ later) →
      read (run later (run ops new)).1.mem r = read (run ops new).1.mem r :=
  ⟨(inv_run ops inv_new).orderedMap,fun later _ hr hlater =>
    read_run later (inv_run ops inv_new) hr hlater⟩

/-- The slice of a value that is put is left as it is. -/
theorem memStore_read_kept :
    0 ∈ (run [.make [1]] new).1.held ∧ read
      (run [.put (encodeUint64 7) 0,.get (encodeUint64 7)] (run [.make [1]] new)).1.mem 0 = [1] :=
  ⟨by decide,(memStore_orderedMap [.make [1]]).2 [.put (encodeUint64 7) 0,
    .get (encodeUint64 7)] 0 (by decide) (by simp)⟩

end Plomvix.SQL.MemStore
