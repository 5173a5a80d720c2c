import DocQuery.Metrics

set_option autoImplicit false

namespace DocQuery

structure Store where
  find : FindRequest → Except QueryError (List Json)
  aggregate : Pipeline → Except QueryError (List Json)
  countDocuments : String → Predicate → Except QueryError Nat
  findByKey : String → String → Json → Except QueryError (Option Json)

inductive StoreCall where
  | find (request : FindRequest)
  | aggregate (pipeline : Pipeline)
  | countDocuments (collection : String) (filter : Predicate)
  | findByKey (collection primaryKey : String) (key : Json)
  deriving Repr

inductive Read where
  | findOne (collection : String) (filter : Json)
  | findMany (collection : String) (filter : Json) (args : PageArgs)
  | count (collection : String) (filter : Json)

namespace Read

def kind : Read → ReadKind
  | findOne .. => .findOne
  | findMany .. => .findMany
  | count .. => .count

def collection : Read → String
  | findOne c _ => c
  | findMany c _ _ => c
  | count c _ => c

end Read

inductive Answer where
  | document (found : Option Json)
  | documents (found : List Json)
  | count (n : Nat)

structure Record where
  metrics : Metrics := {}
  log : List Log.Entry := []
  calls : List StoreCall := []

abbrev ReadM (α : Type) := ExceptT QueryError (StateM Record) α

namespace ReadM

def log (entry : Log.Entry) : ReadM Unit :=
  modify fun r => { r with log := r.log ++ [entry] }

def count (step : Metrics → Metrics) : ReadM Unit :=
  modify fun r => { r with metrics := step r.metrics }

def settle {α : Type} : Except QueryError α → ReadM α
  | .ok a => pure a
  | .error e => throw e

def call {α : Type} (c : StoreCall) (answer : Except QueryError α) : ReadM α := do
  modify fun r => { r with calls := r.calls ++ [c] }
  settle answer

def ofTraced {α : Type} (x : Traced α) : ReadM α := do
  modify fun r => { r with log := r.log ++ x.entries }
  settle x.result

end ReadM

namespace Planner

open ReadM

def plannedRead (p : Planner) (kind : ReadKind) (collection : String) (filter : Json)
    (args : PageArgs) (pivot : Option Json) : ReadM Plan := do
  let planned ← ofTraced (p.plan kind collection filter args pivot)
  ReadM.count (·.planned planned)
  return planned.plan

def routeDirect (collection : String) : ReadM Unit := do
  ReadM.count Metrics.simpleRead
  log (Log.Event.simpleReadRouted.entry [("collection", collection)])

def routeAggregate (collection : String) : ReadM Unit := do
  ReadM.count Metrics.pipelineRead
  log (Log.Event.pipelineReadRouted.entry [("collection", collection)])

def execute (store : Store) : Plan → ReadM (List Json)
  | .direct request => do
    routeDirect request.collection
    call (.find request) (store.find request)
  | .aggregate pipeline => do
    routeAggregate pipeline.collection
    call (.aggregate pipeline) (store.aggregate pipeline)

def findOne (p : Planner) (store : Store) (collection : String) (filter : Json) :
    ReadM (Option Json) := do
  let plan ← p.plannedRead .findOne collection filter {} none
  return (← execute store plan).head?

def resolvePivot (p : Planner) (store : Store) (collection : String) (args : PageArgs) :
    ReadM (Option Json) := do
  match args.pivotToken? with
  | none => return none
  | some (side, token) =>
    let primaryKey := p.config.primaryKey
    let key ← settle (p.config.keyType.coerce primaryKey token)
    match ← call (.findByKey collection primaryKey key)
        (store.findByKey collection primaryKey key) with
    | some pivot => return some pivot
    | none =>
      throw (.pivotNotFound ("'" ++ side.label ++ "' key " ++ key.text ++ " not found in '"
        ++ collection ++ "'"))

def findMany (p : Planner) (store : Store) (collection : String) (filter : Json)
    (args : PageArgs) : ReadM (List Json) := do
  -- unsupported arguments are refused before any look-up
  settle (Window.validate args)
  let pivot ← p.resolvePivot store collection args
  let plan ← p.plannedRead .findMany collection filter args pivot
  execute store plan

def countOf : List Json → Except QueryError Nat
  | [] => .ok 0
  | document :: _ =>
    match (document.member? countField).bind Json.nat64? with
    | some n => .ok n
    | none => .error (.execution ("count stage returned no '" ++ countField ++ "' field"))

def count (p : Planner) (store : Store) (collection : String) (filter : Json) : ReadM Nat := do
  match ← p.plannedRead .count collection filter {} none with
  | .direct request =>
    routeDirect request.collection
    call (.countDocuments request.collection request.filter)
      (store.countDocuments request.collection request.filter)
  | .aggregate pipeline =>
    routeAggregate pipeline.collection
    settle (countOf (← call (.aggregate pipeline) (store.aggregate pipeline)))

def answer (p : Planner) (store : Store) : Read → ReadM Answer
  | .findOne collection filter => return .document (← p.findOne store collection filter)
  | .findMany collection filter args =>
    return .documents (← p.findMany store collection filter args)
  | .count collection filter => return .count (← p.count store collection filter)

def scopeOf (read : Read) : Log.Scope := ⟨read.kind.label, [("collection", read.collection)]⟩

def rejectedEntry (read : Read) (e : QueryError) : Log.Entry :=
  Log.Event.queryRejected.entry
    [("collection", read.collection), ("operation", read.kind.label), ("code", e.code)]

def noteFailure (read : Read) (e : QueryError) : ReadM Unit := do
  if e.severity = .reject then
    ReadM.count Metrics.rejected
    log (rejectedEntry read e)
  log ((scopeOf read).failed e)

/-- Performs one read. Its log opens and closes a scope, and a rejected request is counted.
`elapsed` is the time it took, in milliseconds. -/
def read (p : Planner) (store : Store) (elapsed : Nat) (read : Read) : ReadM Answer := do
  log (scopeOf read).opened
  tryCatch (do
      let found ← p.answer store read
      log ((scopeOf read).completed [] (toString elapsed))
      return found)
    (fun e => do
      noteFailure read e
      throw e)

end Planner

end DocQuery
