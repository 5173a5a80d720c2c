import DocQuery.Compile.Filter
import DocQuery.Paging.Window
import DocQuery.Visit.Rule

set_option autoImplicit false

namespace DocQuery

inductive ReadKind where
  | findOne
  | findMany
  | count
  deriving DecidableEq, Repr, Inhabited

def ReadKind.label : ReadKind → String
  | findOne => "FIND_ONE"
  | findMany => "FIND_MANY"
  | count => "COUNT"

structure FindRequest where
  collection : String
  filter : Predicate
  sort : List SortKey
  skip : Option Nat
  limit : Option Nat
  deriving Repr

def FindRequest.toJson (r : FindRequest) : Json :=
  .obj [("collection", .str r.collection), ("filter", .obj r.filter),
    ("sort", .obj (SortKey.document r.sort)), ("skip", PageArgs.natOrNull r.skip),
    ("limit", PageArgs.natOrNull r.limit)]

inductive Plan where
  | direct (request : FindRequest)
  | aggregate (pipeline : Pipeline)
  deriving Repr

namespace Plan

def route : Plan → String
  | direct _ => "simple"
  | aggregate _ => "pipeline"

def isDirect : Plan → Bool
  | direct _ => true
  | aggregate _ => false

def stageCount : Plan → Nat
  | direct _ => 0
  | aggregate p => p.stages.length

def toJson (p : Plan) : Json :=
  match p with
  | direct request => .obj [("route", .str p.route), ("find", request.toJson)]
  | aggregate pipeline => .obj [("route", .str p.route), ("aggregate", pipeline.toJson)]

end Plan

structure Planned where
  plan : Plan
  joinsStaged : Nat := 0
  joinsDeduplicated : Nat := 0

structure Planner where
  catalog : Catalog
  config : Config
  visitors : List Visitor

namespace Planner

def compiler (p : Planner) : FilterCompiler :=
  ⟨p.catalog, (Rule.ofConfig p.config).visitor :: p.visitors, p.config⟩

def countField : String := "count"

def windowFor (p : Planner) (kind : ReadKind) (args : PageArgs) (pivot : Option Json) :
    Except QueryError Window :=
  match kind with
  | .findMany => Window.ofArgs p.config.primaryKey args pivot
  | .findOne => .ok { limit := some 1 }
  | .count => .ok {}

def finish (kind : ReadKind) (collection : String) (window : Window) :
    CompiledFilter → Planned
  | .predicate filter =>
    { plan := .direct {
        collection, filter := filter.mergeAll window.pivotMatch, sort := window.sort,
        skip := window.skip, limit := window.limit } }
  | .staged pipeline =>
    let pipeline := window.appendTo pipeline
    let pipeline := if kind = .count then pipeline.count countField else pipeline
    ⟨.aggregate pipeline.finish, pipeline.joinsStaged, pipeline.joinsDeduplicated⟩

def plan (p : Planner) (kind : ReadKind) (collection : String) (filter : Json) (args : PageArgs)
    (pivot : Option Json) : Traced Planned := do
  let window ← Traced.lift (p.windowFor kind args pivot)
  let planned := finish kind collection window (← p.compiler.compile collection filter)
  Traced.log .queryPlanned
    [("collection", collection), ("operation", kind.label), ("route", planned.plan.route),
      ("stages", toString planned.plan.stageCount)]
  return planned

end Planner

end DocQuery
