import Mathlib.Logic.Function.Basic

/-!
Programs that only read. A program asks a store for one answer after another and then
returns; a cache in front of the store remembers what was asked. A cache that agrees
with its store never changes a result, and two stores give the same result when they
agree on the questions that are really asked.
-/

namespace OpMove.ReadPrograms

inductive Program (Q : Type) (A : Q → Type) (R : Type)
  | done (result : R)
  | ask (query : Q) (next : A query → Program Q A R)

variable {Q : Type} {A : Q → Type} {R S E : Type}

/-- A store answers or fails. -/
abbrev Answers (A : Q → Type) (E : Type) := (q : Q) → Except E (A q)

abbrev Cache (A : Q → Type) := (q : Q) → Option (A q)

namespace Program

def bind : Program Q A R → (R → Program Q A S) → Program Q A S
  | done result, f => f result
  | ask query next, f => ask query fun answer => (next answer).bind f

def run (answers : Answers A E) : Program Q A R → Except E R
  | done result => .ok result
  | ask query next =>
    match answers query with
    | .ok answer => (next answer).run answers
    | .error e => .error e

/-- The questions asked in a run. -/
def reads (answers : Answers A E) : Program Q A R → List Q
  | done _ => []
  | ask query next =>
    query :: match answers query with
      | .ok answer => (next answer).reads answers
      | .error _ => []

/-- A run behind a cache, with the cache it leaves. -/
def runCached [DecidableEq Q] (answers : Answers A E) :
    Cache A → Program Q A R → Except E R × Cache A
  | cache, done result => (.ok result, cache)
  | cache, ask query next =>
    match cache query with
    | some answer => (next answer).runCached answers cache
    | none =>
      match answers query with
      | .ok answer => (next answer).runCached answers (Function.update cache query (some answer))
      | .error e => (.error e, cache)

end Program

/-- The cache holds answers of the store only. -/
def Coherent (answers : Answers A E) (cache : Cache A) : Prop :=
  ∀ query answer, cache query = some answer → answers query = .ok answer

/-- A cache read through, without remembering anything. -/
def overlay (answers : Answers A E) (cache : Cache A) : Answers A E := fun query =>
  match cache query with
  | some answer => .ok answer
  | none => answers query

theorem coherent_empty (answers : Answers A E) : Coherent answers fun _ => none := by
  intro query answer h
  cases h

theorem Coherent.overlay_eq {answers : Answers A E} {cache : Cache A}
    (h : Coherent answers cache) : overlay answers cache = answers := by
  funext query
  unfold overlay
  cases hcache : cache query with
  | none => rfl
  | some answer => exact (h query answer hcache).symm

theorem Coherent.update [DecidableEq Q] {answers : Answers A E} {cache : Cache A}
    (h : Coherent answers cache) {query : Q} {answer : A query}
    (hanswer : answers query = .ok answer) :
    Coherent answers (Function.update cache query (some answer)) := by
  intro other found hfound
  by_cases hother : other = query
  · subst hother
    rw [Function.update_self, Option.some.injEq] at hfound
    rw [hanswer, hfound]
  · rw [Function.update_of_ne hother] at hfound
    exact h other found hfound

/-- A coherent cache gives the results of its store and stays coherent. -/
theorem runCached_spec [DecidableEq Q] (answers : Answers A E) (program : Program Q A R)
    {cache : Cache A} (h : Coherent answers cache) :
    (program.runCached answers cache).1 = program.run answers ∧
      Coherent answers (program.runCached answers cache).2 := by
  induction program generalizing cache with
  | done result => exact ⟨rfl, h⟩
  | ask query next ih =>
    cases hcache : cache query with
    | some answer =>
      have hanswer := h query answer hcache
      simp only [Program.runCached, Program.run, hcache, hanswer]
      exact ih answer h
    | none =>
      cases hanswer : answers query with
      | error e =>
        simp only [Program.runCached, Program.run, hcache, hanswer]
        exact ⟨trivial, h⟩
      | ok answer =>
        simp only [Program.runCached, Program.run, hcache, hanswer]
        exact ih answer (h.update hanswer)

/-- Only the answers that are read matter. -/
theorem run_eq_of_reads (program : Program Q A R) {answers other : Answers A E}
    (h : ∀ query ∈ program.reads answers, other query = answers query) :
    program.run other = program.run answers := by
  induction program with
  | done result => rfl
  | ask query next ih =>
    have hquery : other query = answers query := h query (by simp [Program.reads])
    simp only [Program.run, hquery]
    cases hanswer : answers query with
    | error e => rfl
    | ok answer =>
      apply ih
      intro later hlater
      apply h
      simp only [Program.reads, hanswer]
      exact List.mem_cons_of_mem query hlater

theorem reads_eq_of_reads (program : Program Q A R) {answers other : Answers A E}
    (h : ∀ query ∈ program.reads answers, other query = answers query) :
    program.reads other = program.reads answers := by
  induction program with
  | done result => rfl
  | ask query next ih =>
    have hquery : other query = answers query := h query (by simp [Program.reads])
    simp only [Program.reads, hquery]
    cases hanswer : answers query with
    | error e => rfl
    | ok answer =>
      refine congrArg (query :: ·) (ih answer fun later hlater => h later ?_)
      simp only [Program.reads, hanswer]
      exact List.mem_cons_of_mem query hlater

theorem run_bind (program : Program Q A R) (f : R → Program Q A S) (answers : Answers A E) :
    (program.bind f).run answers =
      match program.run answers with
      | .ok result => (f result).run answers
      | .error e => .error e := by
  induction program with
  | done result => rfl
  | ask query next ih =>
    simp only [Program.bind, Program.run]
    cases answers query with
    | error e => rfl
    | ok answer => exact ih answer

end OpMove.ReadPrograms
