import Plomvix.Metrics.Store
import Plomvix.Engine.Schema

/-! Which points a metrics store returns after appends, failures of the pager and crashes. -/
namespace Plomvix.Metrics
open Lib Pager PageLog Prog Engine

/-- A scan of all points, by a store that is opened on the file. -/
def scanReopened (trimSpace : Bytes → Bytes) (index : Option TagIndex) (p : PageStore) :
    Except Fail (List Point) :=
  ((do openStore (kind trimSpace); scanRange trimSpace Int64.minValue Int64.maxValue [])
    (newStoreWithIndex p [] index)).1

lemma scanRange_full (trimSpace : Bytes → Bytes) :
    scanRange trimSpace Int64.minValue Int64.maxValue [] = scan (kind trimSpace) fun _ => some true := by
  rw [scanRange]
  congr 1
  funext p
  rw [keeps,if_neg (not_or.mpr ⟨Int64.not_lt.mpr (Int64.minValue_le _),
    Int64.not_lt.mpr (Int64.le_maxValue _)⟩),matchTags,if_pos rfl]

/-- The results of the actions on a new file, and the store in the end. -/
def run (trimSpace : Bytes → Bytes) (index : Option TagIndex) (acts : List (Action Point)) :
    List (Except Fail Unit) × Store (Option TagIndex) :=
  Machine.run (step (kind trimSpace) index) acts (newStoreWithIndex .empty [] index)

/-- The points that are returned in the end are those that the results of the actions speak of. -/
def Durable (trimSpace : Bytes → Bytes) (index : Option TagIndex) (acts : List (Action Point)) : Prop :=
  ∃ points, Machine.Trace Admits [] acts (run trimSpace index acts).1 points ∧
    scanReopened trimSpace index (run trimSpace index acts).2.pages = .ok points ∧
    ((run trimSpace index acts).2.opened = true →
      (scanRange trimSpace Int64.minValue Int64.maxValue []
        { (run trimSpace index acts).2 with script := [] }).1 = .ok points)

/-- Every point whose append returned nil is there, in order, and none whose append returned an
error, if no append and no close finds a page in memory that is not on disk or a page without a
header. -/
theorem points_durable (trimSpace : Bytes → Bytes) (index : Option TagIndex) (acts : List (Action Point))
    (h : Machine.Allowed (step (kind trimSpace) index) PageLog.InStep acts
      (newStoreWithIndex .empty [] index)) : Durable trimSpace index acts := by
  obtain ⟨points,htrace,hhas⟩ := run_admits acts h
  rw [← run] at htrace hhas
  refine ⟨points,htrace,?_,fun hopen => ?_⟩
  · rw [scanReopened,scanRange_full]
    exact hhas.readBack
  · have hscan := (hhas.script []).scan_run (fun _ => some true) rfl hopen
    rw [scanRange_full,hscan,scanned,select_true]

def inTime (start stop : Int64) (points : List Point) : List Point :=
  points.filter fun p => ¬(p.timestamp < start ∨ stop < p.timestamp)

lemma keeps_some_iff {trimSpace : Bytes → Bytes} {start stop : Int64} {tags : List (Bytes × Bytes)}
    {p : Point} :
    keeps trimSpace start stop tags p = some true ↔ ¬(p.timestamp < start ∨ stop < p.timestamp) ∧
      matchTags trimSpace p.tags tags = some true := by
  rw [keeps]
  split_ifs with h <;> simp [h]

lemma keeps_none_iff {trimSpace : Bytes → Bytes} {start stop : Int64} {tags : List (Bytes × Bytes)}
    {p : Point} :
    keeps trimSpace start stop tags p = none ↔ ¬(p.timestamp < start ∨ stop < p.timestamp) ∧
      matchTags trimSpace p.tags tags = none := by
  rw [keeps]
  split_ifs with h <;> simp [h]

/-- What a scan with tags makes of the points. -/
def tagged (trimSpace : Bytes → Bytes) (start stop : Int64) (tags : List (Bytes × Bytes))
    (points : List Point) : Except Fail (List Point) :=
  if ∀ p ∈ inTime start stop points, matchTags trimSpace p.tags tags≠none then
    .ok ((inTime start stop points).filter fun p => matchTags trimSpace p.tags tags = some true)
  else .error .panic

/-- After the same runs a scan with tags sees no point but those of its time range: it returns in
order those that have the tags, if the tags of all of them can be read. -/
theorem tagged_points_durable (trimSpace : Bytes → Bytes) (index : Option TagIndex)
    (acts : List (Action Point))
    (h : Machine.Allowed (step (kind trimSpace) index) PageLog.InStep acts
      (newStoreWithIndex .empty [] index)) :
    ∃ points, Machine.Trace Admits [] acts (run trimSpace index acts).1 points ∧ ∀ start stop tags,
      ((do openStore (kind trimSpace); scanRange trimSpace start stop tags)
        (newStoreWithIndex (run trimSpace index acts).2.pages [] index)).1 =
          tagged trimSpace start stop tags points := by
  obtain ⟨points,htrace,hhas⟩ := run_admits acts h
  rw [← run] at htrace hhas
  refine ⟨points,htrace,fun start stop tags => ?_⟩
  have hreads : (∀ p ∈ points, keeps trimSpace start stop tags p≠none) ↔
      ∀ p ∈ inTime start stop points, matchTags trimSpace p.tags tags≠none := by
    simp only [inTime,List.mem_filter,decide_eq_true_eq,ne_eq,keeps_none_iff,and_imp,not_and]
  have hkept : points.filter (fun p => keeps trimSpace start stop tags p = some true) =
      (inTime start stop points).filter fun p => matchTags trimSpace p.tags tags = some true := by
    rw [inTime,List.filter_filter]
    simp only [keeps_some_iff,Bool.decide_and,Bool.and_comm]
  rw [scanRange,hhas.reopened,tagged,hkept]
  exact if_congr hreads rfl rfl

def cpu (value : UInt64) : Point := ⟨5,ascii "host=a",ascii "cpu",value⟩

/-- The second append fails; the store is opened again before the third. -/
def recovered : List (Action Point) :=
  [.reopen [],.append (cpu 1) [],.append (cpu 2) [.fail],.reopen [],.append (cpu 3) []]

theorem points_durable_recovered : Durable id none recovered :=
  points_durable id none recovered (by unfold recovered; decide +kernel)

theorem tagged_points_durable_recovered :
    ∃ points, Machine.Trace Admits [] recovered (run id none recovered).1 points ∧ ∀ start stop tags,
      ((do openStore (kind id); scanRange id start stop tags)
        (newStoreWithIndex (run id none recovered).2.pages [] none)).1 =
        tagged id start stop tags points :=
  tagged_points_durable id none recovered (by unfold recovered; decide +kernel)

/-- The page of a failed append is written again by the next one. -/
def retried : List (Action Point) := [.reopen [],.append (cpu 1) [.fail],.append (cpu 2) []]

/-- The process ends between the allocation of the first page and the writing of its header. -/
def interrupted : List (Action Point) := [.reopen [.ok,.ok,.ok,.crash],.reopen [],.append (cpu 1) []]

/-- A point whose append failed is returned; and after a crash one whose append returned nil is not,
because it was written over the header. -/
theorem points_not_durable : ¬ Durable id none retried ∧ ¬ Durable id none interrupted := by
  have hretried : (run id none retried).1 = [.ok (),.error (.err (.pager .io)),.ok ()] := by decide +kernel
  have hinterrupted : (run id none interrupted).1 = [.error .crash,.ok (),.ok ()] := by decide +kernel
  constructor
  · rintro ⟨points,htrace,hscan,-⟩
    rw [hretried] at htrace
    obtain _ | ⟨rfl,_ | ⟨rfl,_ | ⟨rfl,_ | _⟩⟩⟩ := htrace
    exact absurd hscan (by decide +kernel)
  · rintro ⟨points,htrace,hscan,-⟩
    rw [hinterrupted] at htrace
    obtain _ | ⟨rfl,_ | ⟨rfl,_ | ⟨rfl,_ | _⟩⟩⟩ := htrace
    exact absurd hscan (by decide +kernel)

end Plomvix.Metrics
