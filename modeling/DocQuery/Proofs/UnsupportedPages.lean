import DocQuery.Proofs.DirectRead
import DocQuery.Proofs.Operations
import DocQuery.Proofs.ReadSteps

set_option autoImplicit false

namespace DocQuery

def PageArgs.Unsupported (args : PageArgs) : Prop :=
  args.last ≠ none ∨ args.after ≠ none ∧ args.before ≠ none

theorem Window.validate_of_unsupported {args : PageArgs} (unsupported : args.Unsupported) :
    ∃ e : QueryError, e.severity = .reject ∧ Window.validate args = .error e := by
  unfold Window.validate
  rcases unsupported with last | ⟨after, before⟩
  · rw [if_pos (Option.isSome_iff_ne_none.mpr last)]
    exact ⟨_, rfl, rfl⟩
  · have both : (args.after.isSome && args.before.isSome) = true := by
      rw [Option.isSome_iff_ne_none.mpr after, Option.isSome_iff_ne_none.mpr before, Bool.and_self]
    rw [if_pos both]
    split
    · exact ⟨_, rfl, rfl⟩
    · exact ⟨_, rfl, rfl⟩

theorem Window.ofArgs_of_refused {args : PageArgs} {e : QueryError}
    (refused : Window.validate args = .error e) (primaryKey : String) (pivot : Option Json) :
    Window.ofArgs primaryKey args pivot = .error e := by
  simp [Window.ofArgs, refused]

def Record.refused (r : Record) (read : Read) (e : QueryError) : Record :=
  { r with
    metrics := r.metrics.rejected
    log := r.log ++ [(Planner.scopeOf read).opened, Planner.rejectedEntry read e,
      (Planner.scopeOf read).failed e] }

namespace Planner

open CommandLine

variable {p : Planner} {args : PageArgs} {pivot : Option Json} {e : QueryError}

/-- Whatever takes the arguments of a page fails: with one error, which nothing is done before, or,
where the filter is compiled first, with the error that the filter comes to. -/
structure Refuses (p : Planner) (args : PageArgs) (pivot : Option Json) (e : QueryError) :
    Prop where
  window (primaryKey : String) : Window.ofArgs primaryKey args pivot = .error e
  staging (s : Staging) (primaryKey : String) :
    s.perform (.paginate primaryKey args pivot) = Traced.fail e ∧
      s.performed (.paginate primaryKey args pivot) = s
  plan (collection : String) (filter : Json) :
    p.plan .findMany collection filter args pivot = Traced.fail e
  planned (collection : String) (filter : Json) (r : Record) :
    (p.plannedRead .findMany collection filter args pivot).perform r = (.error e, r)
  findMany (store : Store) (collection : String) (filter : Json) (r : Record) :
    (p.findMany store collection filter args).perform r = (.error e, r)
  read (store : Store) (elapsed : Nat) (collection : String) (filter : Json) (r : Record) :
    (p.read store elapsed (.findMany collection filter args)).perform r =
      (.error e, r.refused (.findMany collection filter args) e)
  compile (collection : String) (filter : Json) (operation : Option String) :
    ∃ failed, (p.compileRequest ⟨collection, filter, args, operation, pivot⟩).result =
        .error failed ∧
      (failed = e ∨ (p.compiler.compile collection filter).result = .error failed)
  explain (collection : String) (filter : Json) (operation : Option String) :
    p.explainRequest .findMany ⟨collection, filter, args, operation, pivot⟩ = Traced.fail e

theorem plan_of_refused (refused : Window.validate args = .error e) (collection : String)
    (filter : Json) : p.plan .findMany collection filter args pivot = Traced.fail e := by
  simp [plan, windowFor, Window.ofArgs_of_refused refused]

theorem planning_of_refused (refused : Window.validate args = .error e) (store : Store)
    (collection : String) (filter : Json) :
    p.planning store (.findMany collection filter args) = .error e := by
  simp [planning, refused]

theorem read_of_refused (rejected : e.severity = .reject)
    (refused : Window.validate args = .error e) (store : Store) (elapsed : Nat)
    (collection : String) (filter : Json) (r : Record) :
    (p.read store elapsed (.findMany collection filter args)).perform r =
      (.error e, r.refused (.findMany collection filter args) e) := by
  have reading : p.readingEffect store (.findMany collection filter args) = {} := by
    simp [readingEffect, planning_of_refused refused, keyCalls, refused]
  have answered : p.answerOf ⟨store, elapsed, .findMany collection filter args⟩ = .error e := by
    simp [answerOf, prepare, planning_of_refused refused]
  have turn := p.performs_turn ⟨store, elapsed, .findMany collection filter args⟩ r
  simp only [turnEffect, reading, answered, Effect.nothing_andThen] at turn
  rw [turn]
  simp [Effect.on, Effect.andThen, Turn.closing, rejects, rejected, Record.refused]

theorem compile_of_refused (refused : Window.validate args = .error e) (collection : String)
    (filter : Json) (operation : Option String) :
    ∃ failed, (p.compileRequest ⟨collection, filter, args, operation, pivot⟩).result =
        .error failed ∧
      (failed = e ∨ (p.compiler.compile collection filter).result = .error failed) := by
  rw [compileRequest_result, Window.ofArgs_of_refused refused]
  cases (p.compiler.compile collection filter).result with
  | error failed => exact ⟨failed, rfl, .inr rfl⟩
  | ok compiled => exact ⟨e, rfl, .inl rfl⟩

theorem refuses_of_validate (rejected : e.severity = .reject)
    (refused : Window.validate args = .error e) : p.Refuses args pivot e where
  window primaryKey := Window.ofArgs_of_refused refused primaryKey pivot
  staging s primaryKey := by
    have failed : s.perform (.paginate primaryKey args pivot) = Traced.fail e := by
      rw [Staging.perform_paginate, Staging.paginate_eq, Window.ofArgs_of_refused refused]
      rfl
    exact ⟨failed, Staging.performed_of_error (e := e) (by rw [failed]; rfl)⟩
  plan := plan_of_refused refused
  planned collection filter r := by
    simp [plannedRead, plan_of_refused refused]
  findMany store collection filter r := by
    simp [Planner.findMany, refused]
  read := read_of_refused rejected refused
  compile := compile_of_refused refused
  explain collection filter operation := by
    simp [explainRequest, plan_of_refused refused]

/-- Arguments for a page that is not supported are refused wherever a page is taken. Planning to
read one document or to count never looks at the arguments, and accepts these too. -/
theorem unsupported_refused (p : Planner) {args : PageArgs} (unsupported : args.Unsupported)
    (pivot : Option Json) :
    (∃ e : QueryError, e.severity = .reject ∧ p.Refuses args pivot e) ∧
      ∀ kind, kind ≠ .findMany → ∀ collection filter,
        p.plan kind collection filter args pivot = p.plan kind collection filter {} none ∧
          ∀ operation, p.explainRequest kind ⟨collection, filter, args, operation, pivot⟩ =
            p.explainRequest kind ⟨collection, filter, {}, operation, none⟩ := by
  constructor
  · obtain ⟨e, rejected, refused⟩ := Window.validate_of_unsupported unsupported
    exact ⟨e, rejected, refuses_of_validate rejected refused⟩
  · intro kind single collection filter
    have planned : p.plan kind collection filter args pivot =
        p.plan kind collection filter {} none := by
      cases kind with
      | findMany => exact absurd rfl single
      | findOne => rfl
      | count => rfl
    exact ⟨planned, fun operation => by rw [explainRequest, planned, explainRequest]⟩

def lastPage : PageArgs := { last := some 3 }

def plainPlanner : Planner := ⟨⟨[]⟩, {}, []⟩

theorem lastPage_refused :
    lastPage.Unsupported ∧
      (plainPlanner.compileRequest ⟨"Post", .obj [], lastPage, some "count", none⟩).result =
        .error (.unsupported "'last' pagination; use 'first' with a reversed orderBy") ∧
      ∃ e : QueryError, plainPlanner.Refuses lastPage none e := by
  have unsupported : lastPage.Unsupported := .inl (Option.some_ne_none 3)
  obtain ⟨⟨e, -, refuses⟩, -⟩ := plainPlanner.unsupported_refused unsupported none
  exact ⟨unsupported, rfl, e, refuses⟩

-- A count of the last three is a count of all.
theorem lastPage_counted :
    lastPage.Unsupported ∧
      (plainPlanner.plan .count "Post" (.obj []) lastPage none).result =
        .ok { plan := .direct ⟨"Post", [], [], none, none⟩ } ∧
      (plainPlanner.explainRequest .count ⟨"Post", .obj [], lastPage, some "count", none⟩).result =
        .ok (.direct ⟨"Post", [], [], none, none⟩) ∧
      ((plainPlanner.plannedRead .count "Post" (.obj []) lastPage none).perform {}).2.metrics =
        { queriesPlanned := 1 } :=
  ⟨.inl (Option.some_ne_none 3), rfl, rfl, rfl⟩

end Planner

end DocQuery
