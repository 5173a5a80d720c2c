import DocQuery.Compile.Predicate
import DocQuery.Config
import DocQuery.Visit.Traversal

set_option autoImplicit false

namespace DocQuery

structure FilterCompiler where
  catalog : Catalog
  visitors : List Visitor
  config : Config

inductive CompiledFilter where
  | predicate (p : Predicate)
  | staged (pipeline : Staging)

namespace Compile

-- The relation was found when the filter was read, so the catalog has changed since.
def catalogDisagreement (e : QueryError) : Traced Staging :=
  match e with
  | .unknownRelation collection relation => do
    Traced.log .catalogInconsistent [("collection", collection), ("relation", relation)]
    Traced.fail (.catalogInconsistent collection relation)
  | other => Traced.fail other

def joinOptions (collection path : String) : LookupOptions :=
  if path = "" then {} else { parent := some ⟨collection, path⟩ }

def outputBelow (path name : String) : String :=
  if path = "" then name else Staging.below path name

-- Stages every join the nodes reach, a parent before the joins below it. Nodes without effect and
-- nodes with a compiler of their own stage none.
mutual

def joinNode (path : String) (n : Node) (pipeline : Staging) : Traced Staging :=
  match n with
  | .field .. => pure pipeline
  | .relation i r children =>
    if !(Node.relation i r children).hasEffect || i.compiler.isSome then pure pipeline
    else do
      let pipeline ←
        (pipeline.lookup r.name (joinOptions i.collection path)).recover catalogDisagreement
      joinNodes (outputBelow path r.name) children pipeline
  | .group i c branches =>
    if !(Node.group i c branches).hasEffect || i.compiler.isSome then pure pipeline
    else joinBranches path branches pipeline

def joinNodes (path : String) : List Node → Staging → Traced Staging
  | [], pipeline => pure pipeline
  | n :: rest, pipeline => do
    let pipeline ← joinNode path n pipeline
    joinNodes path rest pipeline

def joinBranches (path : String) : List (List Node) → Staging → Traced Staging
  | [], pipeline => pure pipeline
  | branch :: rest, pipeline => do
    let pipeline ← joinNodes path branch pipeline
    joinBranches path rest pipeline

end

def matchStage (ns : List Node) (pipeline : Staging) : Traced Staging := do
  let draft ← predicate ns "" pipeline
  return draft.pipeline.filter draft.predicate

/-- Stages a tree: first one match for the nodes that need no join, so that the joins see fewer
documents, then the joins, then one match for the nodes that read them. -/
def stage (ns : List Node) (pipeline : Staging) : Traced Staging := do
  let pipeline ← matchStage (ns.filter fun n => !n.embedsRelation) pipeline
  let pipeline ← joinNodes "" (ns.filter Node.embedsRelation) pipeline
  matchStage (ns.filter Node.embedsRelation) pipeline

end Compile

namespace FilterCompiler

def parser (c : FilterCompiler) : FilterParser := ⟨c.catalog, c.config.maxDepth⟩

def newPipeline (c : FilterCompiler) (collection : String) : Staging :=
  { collection, catalog := c.catalog, deduplicate := c.config.deduplicateJoins,
    options := c.config.pipelineOptions }

def parse (c : FilterCompiler) (collection : String) (filter : Json) : Traced (List Node) := do
  let nodes ← c.parser.parse collection filter
  Visit.apply c.visitors c.parser nodes

/-- Compiles a tree. It stays a predicate unless it needs a join or a custom compiler stages
something. -/
def compileNodes (c : FilterCompiler) (collection : String) (nodes : List Node) :
    Traced CompiledFilter := do
  let pipeline := c.newPipeline collection
  if Node.anyEmbeds nodes then return .staged (← Compile.stage nodes pipeline)
  else
    let draft ← Compile.predicate nodes "" pipeline
    if draft.pipeline.isEmpty then return .predicate draft.predicate
    else return .staged (draft.pipeline.filter draft.predicate)

def compile (c : FilterCompiler) (collection : String) (filter : Json) : Traced CompiledFilter := do
  c.compileNodes collection (← c.parse collection filter)

def compilePipeline (c : FilterCompiler) (collection : String) (filter : Json) :
    Traced Staging := do
  match ← c.compile collection filter with
  | .staged pipeline => return pipeline
  | .predicate p => return (c.newPipeline collection).filter p

end FilterCompiler

end DocQuery
