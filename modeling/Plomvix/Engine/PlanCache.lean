import Plomvix.Lib.Machine
import Plomvix.Engine.Sql
import Plomvix.Engine.Decimal

/-! The cache of plan templates. Its keys are the sanitized texts and the version of the schema, while a
template has the literals of the statement in it: the cache is transparent as long as no two SELECTs
that read differently have the same sanitized text. -/
namespace Plomvix.Engine
open Lib

section Keys

lemma hexDigit_injective : ∀ m : Fin 16, ∀ n : Fin 16, hexDigit m.val = hexDigit n.val → m = n := by
    decide +kernel

lemma hexDigit_ne : ∀ n : Fin 16, hexDigit n.val≠64 := by decide +kernel

lemma hexString_injective : Function.Injective hexString := by
  intro a b h
  induction a generalizing b with
  | nil =>
    cases b with
    | nil => rfl
    | cons y b => simp [hexString] at h
  | cons x a ih =>
    cases b with
    | nil => simp [hexString] at h
    | cons y b =>
      simp only [hexString,List.flatMap_cons,List.cons_append,List.nil_append,List.cons.injEq] at h
      obtain ⟨hhigh,hlow,hrest⟩ := h
      have hx := x.toNat_lt
      have hy := y.toNat_lt
      have h1 := hexDigit_injective ⟨x.toNat/16,by omega⟩ ⟨y.toNat/16,by omega⟩ hhigh
      have h2 := hexDigit_injective ⟨x.toNat%16,by omega⟩ ⟨y.toNat%16,by omega⟩ hlow
      have hxy : x = y := by
        apply UInt8.toNat.inj
        have h1 := Fin.mk.inj h1
        have h2 := Fin.mk.inj h2
        omega
      rw [hxy,ih hrest]

lemma hexString_plain (b : Bytes) : 64 ∉ hexString b := by
  intro h
  obtain ⟨x,-,hx⟩ := List.mem_flatMap.mp h
  have hlt := x.toNat_lt
  obtain hx | hx : 64 = hexDigit (x.toNat/16) ∨ 64 = hexDigit (x.toNat%16) := by simpa using hx
  · exact hexDigit_ne ⟨x.toNat/16,by omega⟩ hx.symm
  · exact hexDigit_ne ⟨x.toNat%16,by omega⟩ hx.symm

lemma append_mark_inj {a b r s : Bytes} {m : UInt8} (ha : m ∉ a) (hb : m ∉ b)
    (h : a++m::r = b++m::s) : a = b ∧ r = s := by
  have hlen : a.length = b.length := by
    have hidx := congrArg (List.idxOf m) h
    rwa [List.idxOf_append_of_notMem ha,List.idxOf_append_of_notMem hb,List.idxOf_cons_self,
      List.idxOf_cons_self,
      Nat.add_zero,Nat.add_zero] at hidx
  obtain ⟨hab,hrs⟩ := List.append_inj h hlen
  exact ⟨hab,(List.cons.inj hrs).2⟩

lemma key_injective {a b : Bytes} {v w : UInt64}
    (h : CacheKey.string ⟨hexString a,v⟩ = CacheKey.string ⟨hexString b,w⟩) : a = b ∧ v = w := by
  have hmark : ascii "@v" = [64,118] := by decide +kernel
  simp only [CacheKey.string,hmark,List.append_assoc,List.cons_append,List.nil_append] at h
  obtain ⟨hab,hvw⟩ := append_mark_inj (hexString_plain a) (hexString_plain b) h
  have hdec := congrArg digitsVal (List.cons.inj hvw).2
  rw [digitsVal_decimal,digitsVal_decimal] at hdec
  exact ⟨hexString_injective hab,UInt64.toNat.inj hdec⟩

end Keys

def freshSelect (deps : Deps) (req : Request deps.vitess) (e : SQLEngine) : Except Err Result :=
  match e.txm.nextReadTx with
  | none => .error .hangs
  | some (readTx,_) =>
    match planQuery deps e (deps.vitess.read req.stmt.ast) with
    | .error err => .error err
    | .ok tmpl => openTemplate deps.lib e tmpl readTx

section Cache
variable {deps : Deps} {e e' : SQLEngine} {req : Request deps.vitess} {faults : Faults}
  {seen : List (Request deps.vitess)} {n : ℕ}

/-- The template was made for the SELECT `q`, and the schema has changed `age` times since. -/
structure MadeFor (deps : Deps) (e : SQLEngine) (q : Request deps.vitess) (age : ℕ)
    (x : Bytes × PlanTemplate) : Prop where
  select : (deps.vitess.read q.stmt.ast).IsSelect
  key : ∃ v, x.1 = CacheKey.string ⟨fingerprint deps q.stmt.sql,v⟩ ∧
    v+UInt64.ofNat age = e.catalog.schemaVersion
  plan : age = 0 → planQuery deps e (deps.vitess.read q.stmt.ast) = .ok x.2

/-- Every template in the cache was made for a SELECT of the run. -/
def Kept (deps : Deps) (seen : List (Request deps.vitess)) (n : ℕ) (e : SQLEngine) : Prop :=
  ∀ x ∈ e.cache.items, ∃ q ∈ seen, ∃ age ≤ n, MadeFor deps e q age x

lemma mem_store {c : PlanCache} {key : CacheKey} {tmpl : PlanTemplate} {x : Bytes × PlanTemplate}
    (h : x ∈ (c.store key tmpl).items) : x = (key.string,tmpl) ∨ x ∈ c.items := by
  have hevict : ∀ {x}, x ∈ c.evict.items → x ∈ c.items := by
    intro x hx
    unfold PlanCache.evict at hx
    split at hx
    · exact hx
    · split at hx
      · exact hx
      · exact (Assoc.mem_erase.mp hx).1
  unfold PlanCache.store at h
  split at h
  · exact .inr h
  split at h
  · exact .inr h
  obtain hx | ⟨hx,-⟩ := Assoc.mem_put h
  · exact .inl hx
  · exact .inr (hevict hx)

variable (deps e req) in
lemma executeSelect_state : ∃ txm, (executeSelect deps req e).2 = { e with txm := txm } ∨
    ∃ tmpl, planQuery deps e (deps.vitess.read req.stmt.ast) = .ok tmpl ∧
      (executeSelect deps req e).2 = { e with
        txm := txm, cache := e.cache.store (cacheKey deps e req.stmt.sql) tmpl } := by
  rw [executeSelect]
  cases e.txm.nextReadTx with
  | none => exact ⟨e.txm,.inl rfl⟩
  | some tx =>
    refine ⟨tx.2,?_⟩
    simp only [templateFor]
    cases e.cache.lookup (cacheKey deps e req.stmt.sql) with
    | some tmpl => exact .inl rfl
    | none =>
      simp only
      cases hp : planQuery deps e (deps.vitess.read req.stmt.ast) with
      | error err => exact .inl rfl
      | ok tmpl => exact .inr ⟨tmpl,rfl,rfl⟩

lemma Kept.mono {req : Request deps.vitess} {m : ℕ} (h : Kept deps seen n e) (hm : n ≤ m) :
    Kept deps (req::seen) m e := by
  intro x hx
  obtain ⟨q,hq,age,hage,hmade⟩ := h x hx
  exact ⟨q,List.mem_cons_of_mem _ hq,age,hage.trans hm,hmade⟩

lemma kept_select (h : Kept deps seen n e) (hselect : (deps.vitess.read req.stmt.ast).IsSelect) :
    Kept deps (req::seen) (n+1) (executeSelect deps req e).2 := by
  have hold : Kept deps (req::seen) (n+1) e := h.mono (Nat.le_succ n)
  obtain ⟨txm,heq | ⟨tmpl,hplan,heq⟩⟩ := executeSelect_state deps e req
  · rw [heq]
    intro x hx
    obtain ⟨q,hq,age,hage,hmade⟩ := hold x hx
    exact ⟨q,hq,age,hage,hmade.select,hmade.key,hmade.plan⟩
  · rw [heq]
    intro x hx
    obtain rfl | hx := mem_store hx
    · exact ⟨req,List.mem_cons_self ..,0,Nat.zero_le _,hselect,
        ⟨e.catalog.schemaVersion,rfl,add_zero _⟩,fun _ => hplan⟩
    · obtain ⟨q,hq,age,hage,hmade⟩ := hold x hx
      exact ⟨q,hq,age,hage,hmade.select,hmade.key,hmade.plan⟩

/-- A change of the tables takes a new version, so a template of the present version fits the
present tables. -/
lemma kept_schema (h : Kept deps seen n e) (hcache : e'.cache = e.cache)
    (hcatalog : e'.catalog.tables = e.catalog.tables ∧ e'.catalog.schemaVersion = e.catalog.schemaVersion ∨
      e'.catalog.schemaVersion = e.catalog.schemaVersion+1) : Kept deps seen (n+1) e' := by
  intro x hx
  rw [hcache] at hx
  obtain ⟨q,hq,age,hage,hselect,⟨v,hkey,hv⟩,hplan⟩ := h x hx
  obtain ⟨htables,hversion⟩ | hversion := hcatalog
  · refine ⟨q,hq,age,by omega,hselect,⟨v,hkey,hv.trans hversion.symm⟩,fun h0 => ?_⟩
    have hget : e'.catalog.getTable = e.catalog.getTable := by
      funext name
      rw [Catalog.getTable,Catalog.getTable,htables]
    rw [planQuery,hget]
    exact hplan h0
  · refine ⟨q,hq,age+1,by omega,hselect,⟨v,hkey,?_⟩,fun h0 => absurd h0 (Nat.succ_ne_zero age)⟩
    rw [hversion,← hv,UInt64.ofNat_add,← UInt64.add_assoc]
    rfl

/-- SELECTs with the same sanitized text read alike. -/
def Separated (deps : Deps) (seen : List (Request deps.vitess)) : Prop :=
  ∀ q ∈ seen, ∀ q' ∈ seen, (deps.vitess.read q.stmt.ast).IsSelect →
    (deps.vitess.read q'.stmt.ast).IsSelect →
    sanitize deps.vitess q.stmt.sql = sanitize deps.vitess q'.stmt.sql →
      deps.vitess.read q.stmt.ast = deps.vitess.read q'.stmt.ast

lemma select_transparent (hsha : Function.Injective deps.sha256) (h : Kept deps seen n e) (hn : n < 2^64)
    (hselect : (deps.vitess.read req.stmt.ast).IsSelect) (hsep : ∀ q ∈ seen, Separated deps [req,q]) :
    (executeSelect deps req e).1 = freshSelect deps req e := by
  rw [executeSelect,freshSelect]
  cases e.txm.nextReadTx with
  | none => rfl
  | some tx =>
    simp only [templateFor]
    cases hl : e.cache.lookup (cacheKey deps e req.stmt.sql) with
    | none =>
      simp only
      cases planQuery deps e (deps.vitess.read req.stmt.ast) <;> rfl
    | some tmpl =>
      rw [PlanCache.lookup] at hl
      split at hl
      · cases hl
      obtain ⟨q,hq,age,hage,hmade,⟨v,hkey,hv⟩,hplan⟩ := h _ (Assoc.mem_of_lookup hl)
      obtain ⟨hhash,hver⟩ := key_injective hkey
      have hread := hsep q hq req (by simp) q (by simp) hselect hmade (hsha hhash)
      have hage0 : age = 0 := by
        have hzero : UInt64.ofNat age = 0 := by
          rw [← hver] at hv
          exact add_eq_left.mp hv
        have hmod := congrArg UInt64.toNat hzero
        rw [UInt64.toNat_ofNat_of_lt' (show age < 2^64 by omega)] at hmod
        exact hmod
      simp only
      rw [hread,hplan hage0]

/-- A SELECT returns what it would return with a template made for it. -/
def Transparent (deps : Deps) (a : Faults × Request deps.vitess) (e : SQLEngine) : Prop :=
  (deps.vitess.read a.2.stmt.ast).IsSelect → (execute deps a.1 a.2 e).1 = freshSelect deps a.2 e

lemma execute_select (h : (deps.vitess.read req.stmt.ast).IsSelect) :
    execute deps faults req e = executeSelect deps req e := by
  rw [execute]
  cases hs : deps.vitess.read req.stmt.ast with
  | select tables ctes where? exprs => rfl
  | _ =>
    rw [hs] at h
    exact h.elim

lemma kept_execute (h : Kept deps seen n e) :
    Kept deps (req::seen) (n+1) (execute deps faults req e).2 := by
  by_cases hselect : (deps.vitess.read req.stmt.ast).IsSelect
  · rw [execute_select hselect]
    exact kept_select h hselect
  · refine Kept.mono ?_ le_rfl
    rw [execute]
    cases hs : deps.vitess.read req.stmt.ast with
    | select tables ctes where? exprs =>
      rw [hs] at hselect
      exact (hselect trivial).elim
    | insert stmt =>
      obtain ⟨heaps,store,heq⟩ : ∃ heaps store,
          (execInsert deps faults stmt req.readTxID e.txm.nextWriteTx.1
            { e with txm := e.txm.nextWriteTx.2 }).2 =
              { e with txm := e.txm.nextWriteTx.2, heaps := heaps, store := store } :=
        execInsert_effect stmt ..
      simp only [heq]
      exact kept_schema h rfl (.inl ⟨rfl,rfl⟩)
    | ddl stmt =>
      have heffect : DDLEffect { e with txm := e.txm.nextWriteTx.2 }
          (executeDDL deps faults req.userID stmt { e with txm := e.txm.nextWriteTx.2 }).2 :=
            executeDDL_effect ..
      obtain ⟨hcache,-,-,hcatalog⟩ := heffect
      simp only
      exact kept_schema h hcache hcatalog
    | other tables ctes => exact kept_schema h rfl (.inl ⟨rfl,rfl⟩)

lemma run_transparent {all : List (Request deps.vitess)} (hsha : Function.Injective deps.sha256)
    (hsep : Separated deps all) {run : List (Faults × Request deps.vitess)} (hrun : ∀ a ∈ run, a.2 ∈ all)
    (hseen : ∀ q ∈ seen, q ∈ all) (hn : n+run.length ≤ 2^64) (h : Kept deps seen n e) :
    Machine.Allowed (fun a => execute deps a.1 a.2) (Transparent deps) run e := by
  induction run generalizing seen n e with
  | nil => trivial
  | cons a run ih =>
    have ha := hrun a (List.mem_cons_self ..)
    rw [List.length_cons] at hn
    constructor
    · intro hselect
      rw [execute_select hselect]
      refine select_transparent hsha h (by omega) hselect fun q hq x hx y hy => hsep x ?_ y ?_
      · obtain rfl | rfl : x = a.2 ∨ x = q := by simpa using hx
        exacts [ha,hseen x hq]
      · obtain rfl | rfl : y = a.2 ∨ y = q := by simpa using hy
        exacts [ha,hseen y hq]
    · apply ih (fun b hb => hrun b (List.mem_cons_of_mem _ hb)) ?_ (by omega) (kept_execute h)
      intro q hq
      obtain rfl | hq := List.mem_cons.mp hq
      exacts [ha,hseen q hq]

/-- From an empty cache: SELECTs see templates made for them in every run that has no two SELECTs with the
same sanitized text that read differently. -/
theorem plan_cache_transparent {maxSize : ℕ} {run : List (Faults × Request deps.vitess)}
    (hsha : Function.Injective deps.sha256) (hcache : e.cache = PlanCache.new maxSize)
    (hlen : run.length < 2^64)
    (hsep : Separated deps (run.map Prod.snd)) :
    Machine.Allowed (fun a => execute deps a.1 a.2) (Transparent deps) run e := by
  have hkept : Kept deps [] 0 e := by
    intro x hx
    rw [hcache] at hx
    cases hx
  exact run_transparent hsha hsep (fun a ha => List.mem_map_of_mem ha) (by simp) (by omega) hkept

end Cache

section Literals

/-- The text of a query that differs from others only in the literal, and what is read of it. -/
def nameQuery (id : String) : Bytes × Bytes × Statement :=
  let sql := ascii ("SELECT `name` FROM `users` WHERE `id` = "++id)
  (sql,sql,.select [ascii "users"] [] (some (.comparison .equal (.colName [] (ascii "id")) (intLit id)))
    [.aliased (.colName [] (ascii "name")) []])

def nameDeps : Deps := plainDeps [nameQuery "2",nameQuery "3"]

def nameRequest (id : String) : Request nameDeps.vitess := ⟨⟨(nameQuery id).1,(nameQuery id).2⟩,0,0⟩

def threeUsers : SQLEngine :=
  runScript [createUsers,insertUsers [[intLit "1",strLit "A"],[intLit "2",strLit "B"],
  [intLit "3",strLit "C"]]] (newEngine ⟨[],1,0⟩ emptyStore)

lemma runScript_cache {stmts : List Statement} {e : SQLEngine}
    (h : ∀ stmt ∈ stmts, stmt.query.select = none) :
    (runScript stmts e).cache = e.cache := by
  induction stmts generalizing e with
  | nil => rfl
  | cons stmt stmts ih =>
    have hhead : (execute (plainDeps []) Faults.none (request stmt) e).2.cache = e.cache :=
      execute_cache (h stmt (List.mem_cons_self ..))
    exact (ih fun s hs => h s (List.mem_cons_of_mem _ hs)).trans hhead

/-- A single SELECT that is executed twice. -/
theorem plan_cache_transparent_twice :
    Machine.Allowed (fun a => execute nameDeps a.1 a.2) (Transparent nameDeps)
    [(Faults.none,nameRequest "2"),(Faults.none,nameRequest "2")] threeUsers := by
  have hcache : threeUsers.cache = PlanCache.new 128 :=
    runScript_cache (by simp [createUsers,insertUsers,Statement.query])
  refine plan_cache_transparent Function.injective_id hcache (by simp) ?_
  intro q hq q' hq' _ _ _
  obtain rfl : q = nameRequest "2" := by simpa using hq
  obtain rfl : q' = nameRequest "2" := by simpa using hq'
  rfl

def namesFound (name : Bytes) : Except Err Result :=
  .ok ⟨some (⟨[⟨ascii "name",.string,false,none⟩]⟩,[.ok ⟨[⟨.string,.string name⟩],0⟩]),0,[]⟩

/-- The name for the key 2 was asked for; asked for the name for the key 3, the engine returns the
one for 2. -/
theorem plan_cache_keeps_literal :
    let e := (execute nameDeps Faults.none (nameRequest "2") threeUsers).2
    sanitize nameDeps.vitess (nameRequest "2").stmt.sql =
      sanitize nameDeps.vitess (nameRequest "3").stmt.sql ∧
      freshSelect nameDeps (nameRequest "3") e = namesFound (ascii "C") ∧
      (execute nameDeps Faults.none (nameRequest "3") e).1 = namesFound (ascii "B") := by decide +kernel

end Literals

end Plomvix.Engine
