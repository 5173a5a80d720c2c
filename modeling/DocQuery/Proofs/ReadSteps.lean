import DocQuery.Proofs.Outcome
import DocQuery.Session

set_option autoImplicit false

namespace DocQuery

namespace ReadM

def perform {α : Type} (x : ReadM α) (r : Record) : Except QueryError α × Record := x.run.run r

variable {α β : Type} (r : Record)

@[simp] theorem perform_pure (a : α) : perform (pure a) r = (.ok a, r) := rfl

@[simp] theorem perform_throw (e : QueryError) :
    perform (throw e : ReadM α) r = (.error e, r) := rfl

@[simp] theorem perform_bind (x : ReadM α) (f : α → ReadM β) :
    perform (x >>= f) r =
      match perform x r with
      | (.ok a, s) => perform (f a) s
      | (.error e, s) => (.error e, s) := by
  unfold perform ExceptT.run StateT.run
  simp only [bind, ExceptT.bind, ExceptT.mk, StateT.bind, ExceptT.bindCont]
  cases x r with
  | mk result s => cases result <;> rfl

@[simp] theorem perform_map (x : ReadM α) (f : α → β) :
    perform (f <$> x) r = ((perform x r).1.map f, (perform x r).2) := by
  rw [← bind_pure_comp, perform_bind]
  cases perform x r with
  | mk result s => cases result <;> rfl

@[simp] theorem perform_tryCatch (x : ReadM α) (handle : QueryError → ReadM α) :
    perform (tryCatch x handle) r =
      match perform x r with
      | (.ok a, s) => (.ok a, s)
      | (.error e, s) => perform (handle e) s := by
  change perform (ExceptT.tryCatch x handle) r = _
  unfold perform ExceptT.run StateT.run
  simp only [ExceptT.tryCatch, bind, ExceptT.mk, StateT.bind]
  cases x r with
  | mk result s => cases result <;> rfl

@[simp] theorem perform_log (entry : Log.Entry) :
    perform (log entry) r = (.ok (), { r with log := r.log ++ [entry] }) := rfl

@[simp] theorem perform_count (step : Metrics → Metrics) :
    perform (count step) r = (.ok (), { r with metrics := step r.metrics }) := rfl

@[simp] theorem perform_settle (a : Except QueryError α) : perform (settle a) r = (a, r) := by
  cases a <;> rfl

@[simp] theorem perform_call (c : StoreCall) (answer : Except QueryError α) :
    perform (call c answer) r = (answer, { r with calls := r.calls ++ [c] }) := by
  cases answer <;> rfl

@[simp] theorem perform_ofTraced (x : Traced α) :
    perform (ofTraced x) r = (x.result, { r with log := r.log ++ x.entries }) := by
  obtain ⟨steps, result⟩ := x
  cases result <;> rfl

end ReadM

structure Effect where
  metrics : Metrics → Metrics := id
  log : List Log.Entry := []
  calls : List StoreCall := []

def Effect.on (e : Effect) (r : Record) : Record :=
  ⟨e.metrics r.metrics, r.log ++ e.log, r.calls ++ e.calls⟩

def Effect.andThen (first second : Effect) : Effect :=
  ⟨second.metrics ∘ first.metrics, first.log ++ second.log, first.calls ++ second.calls⟩

theorem Effect.on_andThen (first second : Effect) (r : Record) :
    (first.andThen second).on r = second.on (first.on r) := by
  simp [Effect.on, Effect.andThen]

@[simp] theorem Effect.andThen_nothing (e : Effect) : e.andThen {} = e := by
  simp [Effect.andThen]

@[simp] theorem Effect.nothing_andThen (e : Effect) : Effect.andThen {} e = e := by
  simp [Effect.andThen]

def ReadM.Performs {α : Type} (x : ReadM α) (result : Except QueryError α) (effect : Effect) :
    Prop :=
  ∀ r, x.perform r = (result, effect.on r)

namespace ReadM

variable {α β : Type} {x : ReadM α} {e f : Effect}

theorem performs_bind {a : α} {next : α → ReadM β} {result : Except QueryError β}
    (first : x.Performs (.ok a) e) (second : (next a).Performs result f) :
    (x >>= next).Performs result (e.andThen f) := by
  intro r
  rw [perform_bind, first r, Effect.on_andThen]
  exact second (e.on r)

theorem performs_failed {err : QueryError} (failed : x.Performs (.error err) e)
    (next : α → ReadM β) : (x >>= next).Performs (.error err) e := by
  intro r
  simp [failed r]

theorem performs_settle (a : Except QueryError α) : (settle a).Performs a {} := by
  intro r
  simp [Effect.on]

theorem performs_map {result : Except QueryError α} (first : x.Performs result e) (g : α → β) :
    (g <$> x).Performs (result.map g) e := by
  intro r
  simp [first r]

end ReadM

def StoreCall.of (kind : ReadKind) : Plan → StoreCall
  | .direct request =>
    if kind = .count then .countDocuments request.collection request.filter else .find request
  | .aggregate pipeline => .aggregate pipeline

def Metrics.routed (m : Metrics) : Plan → Metrics
  | .direct _ => m.simpleRead
  | .aggregate _ => m.pipelineRead

def Plan.routedEntry : Plan → Log.Entry
  | .direct request => Log.Event.simpleReadRouted.entry [("collection", request.collection)]
  | .aggregate pipeline => Log.Event.pipelineReadRouted.entry [("collection", pipeline.collection)]

def Plan.carriedOut (kind : ReadKind) (plan : Plan) : Effect :=
  { metrics := (·.routed plan), log := [plan.routedEntry], calls := [.of kind plan] }

def Store.documents (store : Store) : Plan → Except QueryError (List Json)
  | .direct request => store.find request
  | .aggregate pipeline => store.aggregate pipeline

def Store.number (store : Store) : Plan → Except QueryError Nat
  | .direct request => store.countDocuments request.collection request.filter
  | .aggregate pipeline => store.aggregate pipeline >>= Planner.countOf

def Store.respond (store : Store) (plan : Plan) : ReadKind → Except QueryError Answer
  | .findOne => ((store.documents plan).map List.head?).map .document
  | .findMany => (store.documents plan).map .documents
  | .count => (store.number plan).map .count

def Traced.planEffect (x : Traced Planned) : Effect :=
  { log := x.entries
    metrics := fun m =>
      match x.result with
      | .ok planned => m.planned planned
      | .error _ => m }

def Traced.readEffect (kind : ReadKind) (x : Traced Planned) : Effect :=
  x.planEffect.andThen
    (match x.result with
    | .ok planned => planned.plan.carriedOut kind
    | .error _ => {})

namespace Planner

open ReadM

section

variable (p : Planner) (store : Store)

def keyCall? (collection : String) (args : PageArgs) : Option StoreCall :=
  match args.pivotToken? with
  | none => none
  | some (_, token) =>
    match p.config.keyType.coerce p.config.primaryKey token with
    | .ok key => some (.findByKey collection p.config.primaryKey key)
    | .error _ => none

def pivotFor (collection : String) (args : PageArgs) : Except QueryError (Option Json) :=
  match args.pivotToken? with
  | none => .ok none
  | some (side, token) => do
    let key ← p.config.keyType.coerce p.config.primaryKey token
    match ← store.findByKey collection p.config.primaryKey key with
    | some pivot => return some pivot
    | none =>
      .error (.pivotNotFound ("'" ++ side.label ++ "' key " ++ key.text ++ " not found in '"
        ++ collection ++ "'"))

def keyCalls : Read → List StoreCall
  | .findMany collection _ args =>
    match Window.validate args with
    | .ok _ => (p.keyCall? collection args).toList
    | .error _ => []
  | _ => []

def planning : Read → Except QueryError (Traced Planned)
  | .findOne collection filter => .ok (p.plan .findOne collection filter {} none)
  | .findMany collection filter args => do
    Window.validate args
    let pivot ← p.pivotFor store collection args
    return p.plan .findMany collection filter args pivot
  | .count collection filter => .ok (p.plan .count collection filter {} none)

def prepare (read : Read) : Except QueryError Planned := do
  let planned ← p.planning store read
  planned.result

theorem performs_plannedRead (kind : ReadKind) (collection : String) (filter : Json)
    (args : PageArgs) (pivot : Option Json) :
    (p.plannedRead kind collection filter args pivot).Performs
      ((p.plan kind collection filter args pivot).result.map (·.plan))
      (p.plan kind collection filter args pivot).planEffect := by
  intro r
  unfold plannedRead Traced.planEffect
  cases planned : (p.plan kind collection filter args pivot).result <;>
    simp [planned, Effect.on]

theorem performs_read {α : Type} (kind : ReadKind) (collection : String) (filter : Json)
    (args : PageArgs) (pivot : Option Json) {next : Plan → ReadM α}
    (respond : Plan → Except QueryError α)
    (carried : ∀ plan, (next plan).Performs (respond plan) (plan.carriedOut kind)) :
    (p.plannedRead kind collection filter args pivot >>= next).Performs
      ((p.plan kind collection filter args pivot).result >>= fun planned => respond planned.plan)
      ((p.plan kind collection filter args pivot).readEffect kind) := by
  have made := p.performs_plannedRead kind collection filter args pivot
  unfold Traced.readEffect
  cases planned : (p.plan kind collection filter args pivot).result with
  | error e =>
    rw [planned] at made
    simpa using performs_failed made next
  | ok found =>
    rw [planned] at made
    exact performs_bind made (carried found.plan)

theorem performs_execute (kind : ReadKind) (documents : kind ≠ .count) (plan : Plan) :
    (execute store plan).Performs (store.documents plan) (plan.carriedOut kind) := by
  intro r
  cases plan with
  | direct request =>
    simp [execute, routeDirect, Metrics.routed, Plan.routedEntry, StoreCall.of, documents,
      Store.documents, Plan.carriedOut, Effect.on]
  | aggregate pipeline =>
    simp [execute, routeAggregate, Metrics.routed, Plan.routedEntry, StoreCall.of, Store.documents,
      Plan.carriedOut, Effect.on]

theorem performs_resolvePivot (collection : String) (args : PageArgs) :
    (p.resolvePivot store collection args).Performs (p.pivotFor store collection args)
      { calls := (p.keyCall? collection args).toList } := by
  intro r
  simp only [resolvePivot, pivotFor, keyCall?]
  cases args.pivotToken? with
  | none => simp [Effect.on]
  | some found =>
    obtain ⟨side, token⟩ := found
    cases coerced : p.config.keyType.coerce p.config.primaryKey token with
    | error e => simp [coerced, Effect.on]
    | ok key =>
      cases answered : store.findByKey collection p.config.primaryKey key with
      | error e => simp [coerced, answered, Effect.on]
      | ok pivot => cases pivot <;> simp [coerced, answered, Effect.on]

def readingEffect (read : Read) : Effect :=
  Effect.andThen { calls := p.keyCalls read }
    (match p.planning store read with
    | .ok planned => planned.readEffect read.kind
    | .error _ => {})

theorem performs_findOne (collection : String) (filter : Json) :
    (p.findOne store collection filter).Performs
      (do
        let planned ← p.prepare store (.findOne collection filter)
        (store.documents planned.plan).map List.head?)
      (p.readingEffect store (.findOne collection filter)) := by
  have reading := p.performs_read .findOne collection filter {} none _ fun plan =>
    performs_map (performs_execute store .findOne (by simp) plan) List.head?
  simpa [findOne, prepare, planning, keyCalls, readingEffect, Read.kind] using reading

theorem performs_findMany (collection : String) (filter : Json) (args : PageArgs) :
    (p.findMany store collection filter args).Performs
      (do
        let planned ← p.prepare store (.findMany collection filter args)
        store.documents planned.plan)
      (p.readingEffect store (.findMany collection filter args)) := by
  simp only [findMany, prepare, planning, keyCalls, readingEffect]
  have valid := performs_settle (Window.validate args)
  cases validated : Window.validate args with
  | error e =>
    rw [validated] at valid
    simpa using performs_failed valid _
  | ok u =>
    rw [validated] at valid
    have resolving := p.performs_resolvePivot store collection args
    cases resolved : p.pivotFor store collection args with
    | error e =>
      rw [resolved] at resolving
      simpa using performs_bind valid (performs_failed resolving _)
    | ok pivot =>
      rw [resolved] at resolving
      have reading := p.performs_read .findMany collection filter args pivot _
        (performs_execute store .findMany (by simp))
      simpa using performs_bind valid (performs_bind resolving reading)

theorem performs_count (collection : String) (filter : Json) :
    (p.count store collection filter).Performs
      (do
        let planned ← p.prepare store (.count collection filter)
        store.number planned.plan)
      (p.readingEffect store (.count collection filter)) := by
  have reading : (p.count store collection filter).Performs _ _ :=
    p.performs_read .count collection filter {} none store.number fun plan r => by
      cases plan with
      | direct request =>
        simp [routeDirect, Metrics.routed, Plan.routedEntry, StoreCall.of, Store.number,
          Plan.carriedOut, Effect.on]
      | aggregate pipeline =>
        cases answered : store.aggregate pipeline <;>
          simp [routeAggregate, answered, Metrics.routed, Plan.routedEntry, StoreCall.of,
            Store.number, Plan.carriedOut, Effect.on]
  simpa [prepare, planning, keyCalls, readingEffect, Read.kind] using reading

end

end Planner

def rejects : Except QueryError Answer → Bool
  | .ok _ => false
  | .error e => e.severity = .reject

structure Turn where
  store : Store
  elapsed : Nat
  read : Read

def Turn.closing (t : Turn) (answer : Except QueryError Answer) : Effect :=
  { metrics := fun m => if rejects answer then m.rejected else m
    log :=
      match answer with
      | .ok _ => [(Planner.scopeOf t.read).completed [] (toString t.elapsed)]
      | .error e =>
        (if rejects answer then [Planner.rejectedEntry t.read e] else []) ++
          [(Planner.scopeOf t.read).failed e] }

namespace Planner

open ReadM

variable (p : Planner) (t : Turn)

def answerOf : Except QueryError Answer := do
  let planned ← p.prepare t.store t.read
  t.store.respond planned.plan t.read.kind

theorem performs_answer :
    (p.answer t.store t.read).Performs (p.answerOf t) (p.readingEffect t.store t.read) := by
  obtain ⟨store, elapsed, read⟩ := t
  cases read with
  | findOne collection filter =>
    simpa [answer, answerOf, Store.respond, Read.kind, Outcome.map_bind] using
      performs_map (p.performs_findOne store collection filter) Answer.document
  | findMany collection filter args =>
    simpa [answer, answerOf, Store.respond, Read.kind, Outcome.map_bind] using
      performs_map (p.performs_findMany store collection filter args) Answer.documents
  | count collection filter =>
    simpa [answer, answerOf, Store.respond, Read.kind, Outcome.map_bind] using
      performs_map (p.performs_count store collection filter) Answer.count

def turnEffect : Effect :=
  Effect.andThen { log := [(scopeOf t.read).opened] }
    ((p.readingEffect t.store t.read).andThen (t.closing (p.answerOf t)))

theorem performs_turn :
    (p.read t.store t.elapsed t.read).Performs (p.answerOf t) (p.turnEffect t) := by
  intro r
  have answered := p.performs_answer t { r with log := r.log ++ [(scopeOf t.read).opened] }
  unfold turnEffect
  cases outcome : p.answerOf t with
  | ok found =>
    rw [outcome] at answered
    simp only [Planner.read, perform_bind, perform_log, perform_tryCatch, answered]
    simp [Turn.closing, rejects, Effect.on, Effect.andThen]
  | error e =>
    rw [outcome] at answered
    by_cases rejected : e.severity = .reject <;>
      simp [Planner.read, answered, Turn.closing, rejects, noteFailure, rejected, Effect.on,
        Effect.andThen]

end Planner

end DocQuery
