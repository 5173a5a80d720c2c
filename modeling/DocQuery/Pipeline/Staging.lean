import DocQuery.Pipeline.Stage
import DocQuery.Trace

set_option autoImplicit false

namespace DocQuery

structure JoinParent where
  collection : String
  path : String
  deriving DecidableEq, Repr, Inhabited

structure LookupOptions where
  output : Option String := none
  extraMatch : Option Predicate := none
  deduplicate : Option Bool := none
  parent : Option JoinParent := none

structure Staging where
  collection : String
  catalog : Catalog
  stages : List Stage := []
  deduplicate : Bool := true
  options : Fields := []
  joinsStaged : Nat := 0
  joinsDeduplicated : Nat := 0

namespace Staging

def isEmpty (s : Staging) : Bool := s.stages.isEmpty

def lookups (s : Staging) : List Lookup := s.stages.filterMap Stage.lookup?

def hasJoin (s : Staging) (output : String) : Bool := s.lookups.any (·.output == output)

def append (s : Staging) (stages : List Stage) : Staging := { s with stages := s.stages ++ stages }

def filter (s : Staging) (predicate : Predicate) : Staging :=
  if predicate.isEmpty then s else s.append [.filter predicate]

def project (s : Staging) (fields : Fields) : Staging :=
  if fields.isEmpty then s else s.append [.project fields]

def sortBy (s : Staging) (keys : List SortKey) : Staging :=
  if keys.isEmpty then s else s.append [.sort keys]

def sort (s : Staging) (order : Fields) : Staging :=
  s.sortBy (order.map fun o => ⟨o.1, .ofToken o.2⟩)

def skip (s : Staging) (n : Nat) : Staging := s.append [.skip n]

def limit (s : Staging) (n : Nat) : Staging := s.append [.limit n]

def count (s : Staging) (field : String) : Staging := s.append [.count field]

def below (path name : String) : String := path ++ "." ++ name

def joinFor (r : Relation) (options : LookupOptions) : Lookup :=
  let path := (options.parent.map (·.path)).getD ""
  let (output, localField) :=
    if path = "" then (r.name, r.localField) else (below path r.name, below path r.localField)
  ⟨r, options.output.getD output, localField⟩

def alreadyStaged (s : Staging) (join : Lookup) : Bool :=
  s.lookups.any fun l => l.relation == join.relation && l.output == join.output

def stageJoin (s : Staging) (join : Lookup) : Staging :=
  let stages :=
    if join.relation.isOne then [.lookup join, .fold join.output] else [.lookup join]
  { s.append stages with joinsStaged := s.joinsStaged + 1 }

/-- What an operation leaves: the pipeline, also if the operation fails, and the outcome. -/
structure Left where
  pipeline : Staging
  outcome : Traced Unit

def Left.result (l : Left) : Traced Staging := do
  l.outcome
  return l.pipeline

/-- Stages the join of a relation that the catalog declares. With deduplication a join already
staged is not staged again. -/
def lookupOn (s : Staging) (name : String) (options : LookupOptions) : Left :=
  let owner := (options.parent.map (·.collection)).getD s.collection
  match s.catalog.relation? owner name with
  | none => ⟨s, Traced.fail (.unknownRelation owner name)⟩
  | some r =>
    let join := joinFor r options
    let (joined, logged) :=
      if options.deduplicate.getD s.deduplicate && s.alreadyStaged join then
        ({ s with joinsDeduplicated := s.joinsDeduplicated + 1 },
          Traced.log .joinDeduplicated [("relation", name), ("alias", join.output)])
      else
        (s.stageJoin join,
          Traced.log .joinStaged
            [("relation", name), ("from", r.target), ("alias", join.output)])
    match options.extraMatch with
    | some predicate => ⟨joined.filter (predicate.scope (join.output ++ ".")), logged⟩
    | none => ⟨joined, logged⟩

def lookup (s : Staging) (name : String) (options : LookupOptions) : Traced Staging :=
  (s.lookupOn name options).result

def finish (s : Staging) : Pipeline := ⟨s.collection, s.stages, s.options⟩

end Staging

end DocQuery
